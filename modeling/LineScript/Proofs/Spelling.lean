import Mathlib.Data.List.Forall2
import LineScript.Proofs.Reading

/-!
The text that tokens were read from. Whatever is read is a text of pieces with blanks between them,
a piece for each token; so a text whose tokens are those of a formula is a text of that formula.
-/
namespace LineScript

/-- The pieces of text for a token. -/
def Spells (piece : Text) : Token → Prop
  | .number v => Text.isDigits piece = true ∧ Value.ofDigits piece = .ok v
  | .opening => piece = ['(']
  | .closing => piece = [')']
  | .operator op => piece = [op.symbol]

/-- The text has a piece for each token, in order, and else only blanks. -/
def Written (s : Text) (ts : List Token) : Prop :=
  ∃ pieces, List.Forall₂ Spells pieces ts ∧ Spaced pieces s

namespace Written

variable {s : Text} {ts : List Token}

theorem nil : Written [] [] :=
  ⟨[], .nil, .last [] (by simp)⟩

theorem piece {p : Text} {t : Token} (hp : Spells p t) (h : Written s ts) :
    Written (p ++ s) (t :: ts) := by
  obtain ⟨pieces, hpieces, hs⟩ := h
  exact ⟨p :: pieces, .cons hp hpieces, by simpa using Spaced.next [] (by simp) p hs⟩

theorem blank {c : Char} (hc : Text.isBlank c = true) (h : Written s ts) :
    Written (c :: s) ts := by
  obtain ⟨pieces, hpieces, hs⟩ := h
  refine ⟨pieces, hpieces, ?_⟩
  cases hs with
  | last gap hg =>
    exact .last _ (List.forall_mem_cons.2 ⟨hc, hg⟩)
  | next gap hg p hs =>
    exact .next (c :: gap) (List.forall_mem_cons.2 ⟨hc, hg⟩) p hs

theorem symbol {c : Char} {t : Token} (hc : Token.ofChar? c = some t) (h : Written s ts) :
    Written (c :: s) (t :: ts) := by
  refine h.piece (p := [c]) ?_
  unfold Token.ofChar? at hc
  split at hc
  · cases hc
    rfl
  · cases hc
    rfl
  · obtain ⟨op, hop, rfl⟩ := Option.map_eq_some_iff.1 hc
    exact congrArg (fun c => [c]) (Operator.ofChar?_eq_some_iff.1 hop)

end Written

namespace Token
namespace Scan

/-- The digits before the end of a numeral are a piece for it. -/
theorem written_of_close {scan scan' : Scan} (h : scan.close = .ok scan')
    (hd : ∀ c ∈ scan.digits, c.isDigit = true) {rest : Text} {ts all : List Token}
    (hr : Written rest ts) (hall : all = scan'.tokens.reverse ++ ts) :
    ∃ ts, Written (scan.digits.reverse ++ rest) ts ∧ all = scan.tokens.reverse ++ ts := by
  unfold close at h
  split at h
  next he =>
    cases h
    rw [List.isEmpty_iff.1 he]
    exact ⟨ts, hr, hall⟩
  next he =>
    obtain ⟨v, hv, h⟩ := Error.exists_of_bind_ok h
    cases h
    have hdigits : Text.isDigits scan.digits.reverse = true := by
      simpa [Text.isDigits, List.all_eq_true] using ⟨by simpa using he, hd⟩
    exact ⟨number v :: ts, hr.piece ⟨hdigits, hv⟩, by simpa using hall⟩

theorem written_of_read {scan scan' : Scan} {text : Text} (h : scan.read text = .ok scan')
    (hd : ∀ c ∈ scan.digits, c.isDigit = true) :
    ∃ ts, Written (scan.digits.reverse ++ text) ts ∧
      scan'.tokens.reverse = scan.tokens.reverse ++ ts := by
  induction text generalizing scan with
  | nil => exact written_of_close h hd .nil (by simp)
  | cons c text ih =>
    rw [read_cons] at h
    obtain ⟨mid, hnext, h⟩ := Error.exists_of_bind_ok h
    unfold next at hnext
    split at hnext
    next hc =>
      cases hnext
      simpa using ih h (List.forall_mem_cons.2 ⟨hc, hd⟩)
    next =>
      obtain ⟨closed, hclose, hnext⟩ := Error.exists_of_bind_ok hnext
      have hnone := digits_of_close hclose
      split at hnext
      next hb =>
        cases hnext
        obtain ⟨ts, hts, hall⟩ := ih h (by simp [hnone])
        rw [hnone] at hts
        exact written_of_close hclose hd (hts.blank hb) hall
      next =>
        split at hnext
        next t ht =>
          cases hnext
          obtain ⟨ts, hts, hall⟩ := ih h (by simp [hnone])
          rw [hnone] at hts
          exact written_of_close hclose hd (hts.symbol ht) (by simpa using hall)
        next => cases hnext

end Scan

theorem written_of_readAll {s : Text} {ts : List Token} (h : readAll s = .ok ts) :
    Written s ts := by
  rw [readAll_eq_read] at h
  obtain ⟨scan, hread, h⟩ := Error.exists_of_bind_ok h
  cases h
  obtain ⟨ts, hts, hall⟩ := Scan.written_of_read hread (by simp)
  have heq : scan.tokens.reverse = ts := by simpa using hall
  exact heq ▸ hts

end Token

namespace Formula

/-- Pieces for the tokens of a formula in values are those of a formula in numerals. -/
theorem exists_lexemes {p : Nat} (e : Formula Value p) {pieces : List Text}
    (h : List.Forall₂ Spells pieces e.tokens) :
    ∃ e' : Formula Numeral p, e'.lexemes Numeral.digits = pieces := by
  induction e generalizing pieces with
  | operand v =>
    obtain ⟨piece, rest, ⟨hd, _⟩, hrest, rfl⟩ := List.forall₂_cons_right_iff.1 h
    obtain rfl := List.forall₂_nil_right_iff.1 hrest
    exact ⟨.operand ⟨piece, hd⟩, rfl⟩
  | group e ih =>
    obtain ⟨piece, rest, rfl, hrest, rfl⟩ := List.forall₂_cons_right_iff.1 h
    have hlast := List.forall₂_drop_append _ _ _ hrest
    obtain ⟨last, rest', rfl, hnil, hdrop⟩ := List.forall₂_cons_right_iff.1 hlast
    obtain rfl := List.forall₂_nil_right_iff.1 hnil
    obtain ⟨e', he'⟩ := ih (List.forall₂_take_append _ _ _ hrest)
    refine ⟨.group e', ?_⟩
    rw [lexemes, he', ← hdrop, List.take_append_drop]
  | tight e ih =>
    obtain ⟨e', he'⟩ := ih h
    exact ⟨.tight e', he'⟩
  | binary op l r ihl ihr =>
    obtain ⟨l', hl'⟩ := ihl (List.forall₂_take_append _ _ _ h)
    obtain ⟨piece, rest, rfl, hrest, hdrop⟩ :=
      List.forall₂_cons_right_iff.1 (List.forall₂_drop_append _ _ _ h)
    obtain ⟨r', hr'⟩ := ihr hrest
    refine ⟨.binary op l' r', ?_⟩
    rw [lexemes, hl', hr', ← hdrop, List.take_append_drop]

end Formula
end LineScript
