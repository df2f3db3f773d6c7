import Tableau.Proofs.Listing.Lines
import Tableau.Proofs.Token.Taken
import Tableau.Source
import Tableau.Token.Listing

/-!
# The tokens of a listing

The listing of tokens has one line for each of them. In its line the number ends where the digits
end and the kind where the letters end; what is left is the text between its quotation marks. So
the tokens can be read off a listing as long as no text has a line feed in it, and no token of a
program text has one (`Source.oneLine_of_tokens`). All that comes after the scan depends on the
tokens alone, and so on their listing (`Token.listing_determines_outcome`).
-/

namespace Tableau

namespace Token

/-! ## The line of a token -/

/-- What stands in the line of a token. -/
def entry (token : Token) : String :=
  token.line.repr ++ " " ++ (token.kind.label ++ " \"" ++ token.text ++ "\"")

theorem listingLine_eq (token : Token) : token.listingLine = token.entry ++ "\n" := by
  simp only [listingLine, entry, String.append_assoc]
  rfl

theorem entry_injective : Function.Injective entry := by
  intro token token' h
  have split : ∀ token : Token, token.entry.toList = token.line.repr.toList ++
      ' ' :: (token.kind.label ++ " \"" ++ token.text ++ "\"").toList := fun token => by
    rw [entry, String.toList_append, String.toList_append, List.append_assoc]
    rfl
  have ended : ∀ behind : List Char, ∀ c ∈ (' ' :: behind).head?, c.isDigit = false :=
    fun behind c hc => by rw [← Option.some.inj hc]; rfl
  rw [← String.toList_inj, split, split] at h
  obtain ⟨hline, hbehind⟩ := Numeral.repr_append_inj (ended _) (ended _) h
  obtain ⟨hlabel, htext⟩ := labelled_inj token.kind.isAlpha_label token'.kind.isAlpha_label
    (String.toList_inj.1 (List.cons.inj hbehind).2)
  exact Token.mk.injEq .. ▸ ⟨Kind.label_injective hlabel, htext, hline⟩

theorem oneLine_entry {token : Token} (htext : OneLine token.text) : OneLine token.entry := by
  have hline : OneLine token.line.repr := fun hfeed => by
    cases Numeral.isDigit_of_mem_repr hfeed
  have hlabel : OneLine token.kind.label := fun hfeed => by
    cases token.kind.isAlpha_label _ hfeed
  refine oneLine_append.2 ⟨oneLine_append.2 ⟨hline, by decide⟩, ?_⟩
  exact oneLine_append.2 ⟨oneLine_append.2 ⟨oneLine_append.2 ⟨hlabel, by decide⟩, htext⟩, by decide⟩

/-! ## Listings -/

theorem listing_eq_unlines (tokens : List Token) : listing tokens = unlines (tokens.map entry) := by
  rw [listing, unlines, List.map_map, funext listingLine_eq]
  rfl

/-- Tokens whose texts stand in one line each can be read off their listing. -/
theorem listing_inj {tokens tokens' : List Token} (htexts : ∀ token ∈ tokens, OneLine token.text)
    (htexts' : ∀ token ∈ tokens', OneLine token.text) (h : listing tokens = listing tokens') :
    tokens = tokens' := by
  rw [listing_eq_unlines, listing_eq_unlines] at h
  have oneLine_entries : ∀ {tokens : List Token}, (∀ token ∈ tokens, OneLine token.text) →
      ∀ line ∈ tokens.map entry, OneLine line := fun htexts =>
    List.forall_mem_map.2 fun token htoken => oneLine_entry (htexts token htoken)
  exact (List.map_inj_right fun _ _ hentry => entry_injective hentry).1
    (unlines_injective (oneLine_entries htexts) (oneLine_entries htexts') h)

end Token

/-- No token of a program text has a line feed in it: a line feed is a blank. -/
theorem Source.oneLine_of_tokens {source : String} {tokens : List Token}
    (h : Source.tokens source = .ok tokens) : ∀ token ∈ tokens, OneLine token.text := by
  intro token htoken
  obtain ⟨hblank, place, hplace⟩ := Token.scan_eq_ok_forall h token htoken
  obtain ⟨rest, -, htakes⟩ := Token.takes_of_firstMatch hplace
  exact List.count_eq_zero.1 (htakes.count_newline hblank)

namespace Token

/-- **A token listing determines the outcome**: tokens with one listing are the same tokens, unless
there is a line feed in a text. In no token of a program text there is one, so program texts with
one listing have the same tokens, the same tree and the same scene, or the same fault on the same
line. -/
theorem listing_determines_outcome :
    (∀ tokens tokens' : List Token, (∀ token ∈ tokens, '\n' ∉ token.text.toList) →
      (∀ token ∈ tokens', '\n' ∉ token.text.toList) → listing tokens = listing tokens' →
        tokens = tokens') ∧
    ∀ source source' tokens tokens', Source.tokens source = .ok tokens →
      Source.tokens source' = .ok tokens' → listing tokens = listing tokens' →
        tokens = tokens' ∧ Program.parse tokens = Program.parse tokens' ∧
        Source.program source = Source.program source' ∧
        Source.scene source = Source.scene source' := by
  refine ⟨fun tokens tokens' => listing_inj, ?_⟩
  intro source source' tokens tokens' hsource hsource' h
  obtain rfl := listing_inj (Source.oneLine_of_tokens hsource) (Source.oneLine_of_tokens hsource') h
  have hprogram : Source.program source = Source.program source' := by
    rw [Source.program_of_tokens hsource, Source.program_of_tokens hsource']
  refine ⟨rfl, rfl, hprogram, ?_⟩
  rw [Source.scene, Source.scene, hprogram]

/-- Two texts that fail alike, one of them with more blanks; a text with a quotation mark, which
hides no token; and one with a line feed, which does. -/
theorem listing_determines_outcome_of_two_texts :
    let spaced := "A  is\tcircle .\n\x0bB is\nbehind C.\n"
    let glued := "A is circle.\nB is\nbehind C."
    let tokens : List Token := [⟨.name, "A", 1⟩, ⟨.is, "is", 1⟩]
    let quoted : List Token := [⟨.name, "A\" 1 Is \"is", 1⟩]
    let forged : List Token := [⟨.name, "A\"\n1 Is \"is", 1⟩]
    (∃ found found', Source.tokens spaced = .ok found ∧ Source.tokens glued = .ok found' ∧
      listing found = listing found' ∧ found = found' ∧
      Source.scene spaced = Source.scene glued) ∧
    Source.scene glued = .error ⟨.undeclared "B", 2⟩ ∧
    ((∀ token ∈ tokens, '\n' ∉ token.text.toList) ∧ (∀ token ∈ quoted, '\n' ∉ token.text.toList) ∧
      listing tokens ≠ listing quoted) ∧
    listing tokens = listing forged ∧ tokens ≠ forged := by
  intro spaced glued tokens quoted forged
  let found : List Token :=
    [⟨.name, "A", 1⟩, ⟨.is, "is", 1⟩, ⟨.shape .circle, "circle", 1⟩, ⟨.period, ".", 1⟩,
      ⟨.name, "B", 2⟩, ⟨.is, "is", 2⟩, ⟨.behind, "behind", 3⟩, ⟨.name, "C", 3⟩, ⟨.period, ".", 3⟩]
  have hspaced : Source.tokens spaced = .ok found := eq_ok_of_toOption (by decide +kernel)
  have hglued : Source.tokens glued = .ok found := eq_ok_of_toOption (by decide +kernel)
  have htokens : ∀ token ∈ tokens, '\n' ∉ token.text.toList := by decide +kernel
  have hquoted : ∀ token ∈ quoted, '\n' ∉ token.text.toList := by decide +kernel
  obtain ⟨hinjective, hdetermines⟩ := listing_determines_outcome
  obtain ⟨hsame, -, -, hscene⟩ := hdetermines spaced glued found found hspaced hglued rfl
  refine ⟨⟨found, found, hspaced, hglued, rfl, hsame, hscene⟩,
    eq_error_of_faultOf (by decide +kernel), ⟨htokens, hquoted, fun h => ?_⟩, by decide +kernel,
    by decide +kernel⟩
  exact absurd (hinjective tokens quoted htokens hquoted h) (by decide +kernel)

end Token

end Tableau
