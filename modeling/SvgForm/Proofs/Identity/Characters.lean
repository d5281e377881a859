import SvgForm.Proofs.Document.Reload
import SvgForm.Proofs.Identity.Ensure
/-! # What identities are made of

The identities of a document that markup may hold are made of characters that markup may hold: those of values of
its attributes, or of its tags in lower case, with digits after them.
-/

namespace SvgForm

namespace Xml

variable {c : Char}

theorem isMarkupChar_of_toNat (code : 0x20 ≤ c.toNat ∧ c.toNat ≠ 0xFFFE ∧ c.toNat ≠ 0xFFFF) :
    isMarkupChar c = true := by
  rw [isMarkupChar, if_neg (by omega)]
  simpa using code.2

/-- Every run leads to characters that markup may hold. -/
theorem isMarkupChar_lowerRun : ∀ r ∈ Text.lowerRuns, 0x20 ≤ r.lower ∧ (r.lower + (r.last - r.first) < 0xD800 ∨
    0xDFFF < r.lower ∧ r.lower + (r.last - r.first) < 0xFFFE ∨
      0xFFFF < r.lower ∧ r.lower + (r.last - r.first) < 0x110000) := by
  decide +kernel

theorem isMarkupChar_lowerChar (char : isMarkupChar c = true) : isMarkupChar (Text.lowerChar c) = true := by
  rw [Text.lowerChar]
  split
  case isTrue ascii =>
    have each : ∀ n < 0x80, isMarkupChar (.ofNat n) = true → isMarkupChar (Char.ofNat n).toLower = true := by
      decide
    have lowered := each c.toNat ascii
    rw [Char.ofNat_toNat] at lowered
    exact lowered char
  case isFalse =>
    split
    case h_1 r found =>
      have within := List.find?_some found
      simp only [Bool.and_eq_true, decide_eq_true_eq] at within
      have lower := isMarkupChar_lowerRun r (List.mem_of_find?_eq_some found)
      have valid : (r.lower + (c.toNat - r.first)).isValidChar := by
        rw [Nat.isValidChar]
        omega
      have code : (Char.ofNat (r.lower + (c.toNat - r.first))).toNat = r.lower + (c.toNat - r.first) := by
        rw [Char.ofNat, dif_pos valid]
        rfl
      exact isMarkupChar_of_toNat (by omega)
    case h_2 => exact char

theorem isMarkupChar_of_isNameChar (char : isNameChar c = true) : isMarkupChar c = true := by
  rw [isNameChar] at char
  split at char
  case isTrue ascii =>
    have each : ∀ n < 0x80, isNameChar (.ofNat n) = true → isMarkupChar (.ofNat n) = true := by decide
    have known := each c.toNat ascii
    rw [Char.ofNat_toNat, isNameChar, if_pos ascii] at known
    exact known char
  case isFalse beyond =>
    have ends : ∀ r ∈ letterRanges ++ extenderRanges, r.2 < 0xFFFE := by decide +kernel
    rw [Text.inRanges, Text.inRanges, ← List.any_append, List.any_eq_true] at char
    obtain ⟨r, listed, within⟩ := char
    simp only [Bool.and_eq_true, decide_eq_true_eq] at within
    have last := ends r listed
    exact isMarkupChar_of_toNat (by omega)

theorem clean_lowerAfter {before s : List Char} (clean : Clean s) : Clean (Text.lowerAfter before s) := by
  induction s generalizing before with
  | nil => exact fun _ mem => absurd mem List.not_mem_nil
  | cons c s ih =>
      obtain ⟨here, later⟩ := List.forall_mem_cons.mp clean
      refine .append ?_ (ih later)
      split
      case isTrue => decide
      case isFalse =>
        split
        case isTrue =>
          split <;> decide
        case isFalse => exact List.forall_mem_singleton.mpr (isMarkupChar_lowerChar here)

end Xml

namespace Document

variable {d : Document} {holder key : String} {x : Handle}

theorem clean_disambiguate (clean : Xml.Clean key.toList) (n : Nat) : Xml.Clean (disambiguate key n).toList := by
  have digits : Xml.Clean (Text.natDigits n) := by
    intro c mem
    have digit := Nat.isDigit_of_mem_toDigits (by decide) (by decide) mem
    have range := Char.isDigit_iff_toNat.mp digit
    have zero : '0'.toNat = 0x30 := rfl
    have nine : '9'.toNat = 0x39 := rfl
    exact Xml.isMarkupChar_of_toNat (by omega)
  rw [disambiguate]
  split
  case isTrue => exact clean
  case isFalse =>
    simp only [String.toList_append, String.toList_ofList]
    exact (clean.append (by decide)).append digits

theorem clean_baseKey (clean : (d.element x).Clean) : Xml.Clean (d.baseKey holder x).toList := by
  have value {name v : String} (found : (d.get? x name).filter (· ≠ "") = some v) : Xml.Clean v.toList :=
    clean.values _ (Xml.mem_of_lookup (Option.filter_eq_some_iff.mp found).1)
  cases id : (d.get? x "id").filter (· ≠ "") with
  | some v =>
      rw [baseKey_of_id id]
      exact value id
  | none =>
      cases identity : (d.get? x holder).filter (· ≠ "") with
      | some v =>
          rw [baseKey_of_identity id identity]
          exact value identity
      | none =>
          obtain ⟨uri, label, expansion, -⟩ := clean.name
          rw [baseKey_of_tag id identity, tag, expansion.localName_eq, lowered, Text.onChars]
          simp only [String.toList_append, String.toList_ofList]
          have lower : Xml.Clean (Text.lower label.toList) := Xml.clean_lowerAfter fun c mem =>
            Xml.isMarkupChar_of_isNameChar (expansion.label_chars c mem)
          exact .append (by decide) lower

theorem clean_identityOf (clean : d.Consists Xml.Element.Clean) (hx : x ∈ d.eligible) :
    Xml.Clean (d.identityOf holder x).toList := by
  obtain ⟨_, _, n, _, named, _⟩ := (clean.wellFormed.assigns_identityOf holder).spec hx
  rw [named]
  exact clean_disambiguate (clean_baseKey (clean.elements x (eligible_subset hx))) n

end Document

end SvgForm
