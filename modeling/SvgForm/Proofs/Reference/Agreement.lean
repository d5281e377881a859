import SvgForm.Proofs.Render.Values
/-! # Two readings of one reference

A rule and a field that depends on another both read references. Where the name in a reference has a value they
differ in one thing only: a field takes an image reference whole, whatever part is asked for, and a rule takes the
part. So they agree unless a part of an image reference is asked for that is not all of it.
-/

namespace SvgForm.Reference

variable {known : KnownValues} {reference : String} {value : Value}

/-- A rule takes the part that is asked for. -/
theorem resolve_of_lookup {text : List Char} (named : known.lookup (.ofList (parse text).name) = some value)
    (given : value ≠ .null) : resolve known text = extract (parse text).part value.display.toList := by
  unfold resolve
  simp only [List.findSome?_cons, named]

/-- A field takes an image reference whole, and of other values the part that is asked for. -/
theorem resolveDependency_of_lookup
    (named : known.lookup (.ofList (parse reference.toList).name) = some value) :
    resolveDependency known reference = partOf reference value := by
  simp only [resolveDependency, named]
  rfl

theorem partOf_image (image : value.isImageReference = true) : partOf reference value = value.display :=
  if_pos image

theorem partOf_plain (plain : ¬ value.isImageReference = true) :
    partOf reference value = .ofList (extract (parse reference.toList).part value.display.toList) :=
  if_neg plain

/-- Where the name in a reference has a value, a rule and a field that depends on the reference take the same of it,
unless the value is an image reference and what is asked for is not all of it. The field takes an image reference
whole in any case. -/
theorem resolve_eq_resolveDependency_iff
    (named : known.lookup (.ofList (parse reference.toList).name) = some value) (given : value ≠ .null) :
    (String.ofList (resolve known reference.toList) = resolveDependency known reference ↔
        (value.isImageReference = true →
          extract (parse reference.toList).part value.display.toList = value.display.toList)) ∧
      (value.isImageReference = true → resolveDependency known reference = value.display) := by
  rw [resolve_of_lookup named given, resolveDependency_of_lookup named]
  refine ⟨?_, partOf_image⟩
  by_cases image : value.isImageReference = true
  case pos => simp only [partOf_image image, image, true_imp_iff, ← String.toList_inj, String.toList_ofList]
  case neg => simp only [partOf_plain image, image, false_imp_iff, Bool.false_eq_true]

/-- The data of a picture. -/
def picture : Value :=
  .text "data:image/png;base64,QUJD"

/-- One field, which holds a picture. -/
def logo : KnownValues :=
  [("Logo", picture)]

/-- The first word of a picture is all of it, but its first four characters are not. -/
theorem logo_parts :
    (logo.lookup (.ofList (parse "Logo[w1]".toList).name) = some picture ∧
      logo.lookup (.ofList (parse "Logo[ch1-4]".toList).name) = some picture ∧ picture ≠ .null) ∧
    String.ofList (resolve logo "Logo[w1]".toList) = resolveDependency logo "Logo[w1]" ∧
    String.ofList (resolve logo "Logo[ch1-4]".toList) ≠ resolveDependency logo "Logo[ch1-4]" ∧
    resolveDependency logo "Logo[ch1-4]" = picture.display := by
  have named : logo.lookup (.ofList (parse "Logo[w1]".toList).name) = some picture ∧
      logo.lookup (.ofList (parse "Logo[ch1-4]".toList).name) = some picture ∧ picture ≠ .null :=
    ⟨by rfl, by rfl, Value.noConfusion⟩
  have word := resolve_eq_resolveDependency_iff named.1 named.2.2
  have chars := resolve_eq_resolveDependency_iff named.2.1 named.2.2
  refine ⟨named, word.1.mpr fun _ => by decide, ?_, chars.2 (by decide)⟩
  exact fun same => absurd (chars.1.mp same (by decide)) (by decide)

/-- A part of a picture tells the two readings apart. -/
theorem logo_told_apart :
    ¬ ∀ (known : KnownValues) (reference : String) (value : Value),
      known.lookup (.ofList (parse reference.toList).name) = some value → value ≠ .null →
        String.ofList (resolve known reference.toList) = resolveDependency known reference := by
  intro agree
  have same := agree logo "Logo[ch1-4]" picture (by rfl) Value.noConfusion
  have differ : ¬ String.ofList (resolve logo "Logo[ch1-4]".toList) = resolveDependency logo "Logo[ch1-4]" := by
    decide
  exact differ same

end SvgForm.Reference
