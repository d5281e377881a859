import Mathlib.Data.List.Induction
import SvgForm.Font.Cache
import SvgForm.Proofs.Lookup
/-! # Caching fonts changes no answer

A cache holds under each of its keys what would be found without it, and no call changes that. So a call is answered
as it is with an empty cache, and metrics with a cache for all their files answer as they do with none.
-/

namespace SvgForm

variable {σ ε : Type}

namespace FontMeter

variable {m : FontMeter σ ε} {memory : σ}

theorem run_append (m : FontMeter σ ε) (memory : σ) (calls more : List FontCall) :
    (m.run memory (calls ++ more)).2 = (m.run (m.run memory calls).2 more).2 := by
  induction calls generalizing memory with
  | nil => rfl
  | cons call calls ih => exact ih _

/-- No calls change how others are answered. -/
def Steady (m : FontMeter σ ε) (memory : σ) : Prop :=
  ∀ calls call, (m.answer call (m.run memory calls).2).1 = (m.answer call memory).1

theorem Steady.run_fst (steady : m.Steady memory) (calls : List FontCall) :
    (m.run memory calls).1 = calls.map fun call => (m.answer call memory).1 := by
  have after (before : List FontCall) :
      (m.run (m.run memory before).2 calls).1 = calls.map fun call => (m.answer call memory).1 := by
    induction calls generalizing before with
    | nil => rfl
    | cons call calls ih =>
        have next := ih (before ++ [call])
        rw [run_append] at next
        exact congr (congrArg List.cons (steady before call)) next
  exact after []

end FontMeter

theorem FontGauge.steady_meter (g : FontGauge ε) : g.meter.Steady () :=
  fun _ _ => rfl

/-! ## One cache -/

/-- A cache holds nothing but what would be found. -/
def FontCache.Sound (k : FontSource σ ε) (c : FontCache ε) : Prop :=
  ∀ family pixels found, c.entries.lookup (family, pixels) = some found → k.find family pixels = .ok found

/-- A cache holds what would be found for a family at a pixel size. -/
def FontCache.Holds (k : FontSource σ ε) (c : FontCache ε) (family : String) (pixels : Nat) : Prop :=
  ∀ found, k.find family pixels = .ok found → c.entries.lookup (family, pixels) = some found

/-- What a font answers. -/
def Typeface.answer (f : Typeface ε) (refuse : MeasureError → ε) : FontCall → Except ε FontAnswer
  | .extent _ size => (f.extent refuse size).map .extent
  | .textWidth _ size text => (f.textWidth size text).map .textWidth

namespace FontSource

variable {k : FontSource σ ε} {c : FontCache ε} {family : String} {pixels : Nat} {memory : σ}

theorem sound_empty (k : FontSource σ ε) : FontCache.Sound k {} := by
  intro family pixels found held
  cases held

theorem fetch_fst (hc : c.Sound k) (family : String) (pixels : Nat) :
    (k.fetch family pixels c).1 = k.find (lowered family) pixels := by
  rw [fetch]
  cases held : c.entries.lookup (lowered family, pixels) with
  | some found => exact (hc _ _ _ held).symm
  | none => cases k.find (lowered family) pixels <;> rfl

/-- Either nothing is added to the cache, or what is found for a key that it did not have. -/
theorem fetch_snd_cases (k : FontSource σ ε) (family : String) (pixels : Nat) (c : FontCache ε) :
    (k.fetch family pixels c).2 = c ∨
      ∃ found, c.entries.lookup (lowered family, pixels) = none ∧ k.find (lowered family) pixels = .ok found ∧
        (k.fetch family pixels c).2 = { entries := ((lowered family, pixels), found) :: c.entries } := by
  rw [fetch]
  cases held : c.entries.lookup (lowered family, pixels) with
  | some found => exact .inl rfl
  | none =>
      cases sought : k.find (lowered family) pixels with
      | error e => exact .inl rfl
      | ok found => exact .inr ⟨found, rfl, rfl, rfl⟩

theorem sound_fetch (hc : c.Sound k) (family : String) (pixels : Nat) : (k.fetch family pixels c).2.Sound k := by
  obtain same | ⟨found, -, sought, added⟩ := k.fetch_snd_cases family pixels c
  · rwa [same]
  · rw [added]
    intro family' pixels' found' held
    rw [lookup_cons_eq] at held
    split at held
    case isTrue here =>
        obtain ⟨rfl, rfl⟩ := Prod.mk.inj here
        rw [sought, Option.some.inj held]
    case isFalse => exact hc _ _ _ held

theorem holds_fetch_of_holds {family' : String} {pixels' : Nat} (holds : c.Holds k family' pixels') :
    (k.fetch family pixels c).2.Holds k family' pixels' := by
  obtain same | ⟨found, missing, -, added⟩ := k.fetch_snd_cases family pixels c
  · rwa [same]
  · rw [added]
    intro found' sought
    have held := holds found' sought
    rw [lookup_cons_eq, if_neg, held]
    intro here
    rw [here, missing] at held
    cases held

theorem holds_fetch (hc : c.Sound k) (family : String) (pixels : Nat) :
    (k.fetch family pixels c).2.Holds k (lowered family) pixels := by
  intro found sought
  rw [fetch]
  cases held : c.entries.lookup (lowered family, pixels) with
  | some found' =>
      obtain rfl := Except.ok.inj ((hc _ _ _ held).symm.trans sought)
      exact held
  | none =>
      simp only [sought]
      exact List.lookup_cons_self

theorem fetch_snd_of_holds (holds : c.Holds k (lowered family) pixels) : (k.fetch family pixels c).2 = c := by
  obtain same | ⟨found, missing, sought, -⟩ := k.fetch_snd_cases family pixels c
  · exact same
  · rw [holds found sought] at missing
    cases missing

/-! ## Calls -/

/-- The font for a family and a size, as it is found without a cache. -/
def sought (k : FontSource σ ε) (family : String) (size : Float) : Except ε (Option (Typeface ε)) :=
  match pixelSize size with
  | .error e => .error (k.refuse e)
  | .ok pixels => k.find (lowered family) pixels

/-- What is answered without a cache. -/
def answered (k : FontSource σ ε) (call : FontCall) (memory : σ) : Except ε FontAnswer × σ :=
  match k.sought call.family call.size with
  | .error e => (.error e, memory)
  | .ok (some font) => (font.answer k.refuse call, memory)
  | .ok none => k.fallback.answer call memory

/-- The cache after a font was sought for a family and a size. -/
def cached (k : FontSource σ ε) (family : String) (size : Float) (c : FontCache ε) : FontCache ε :=
  match pixelSize size with
  | .error _ => c
  | .ok pixels => (k.fetch family pixels c).2

theorem sound_cached (hc : c.Sound k) (family : String) (size : Float) : (k.cached family size c).Sound k := by
  rw [cached]
  cases pixelSize size with
  | error => exact hc
  | ok pixels => exact sound_fetch hc family pixels

theorem measured_eq {α : Type} (hc : c.Sound k) (family : String) (size : Float) (byFont : Typeface ε → Except ε α)
    (byFallback : σ → Except ε α × σ) (memory : σ) :
    k.measured family size byFont byFallback (c, memory) =
      match k.sought family size with
      | .error e => (.error e, k.cached family size c, memory)
      | .ok (some font) => (byFont font, k.cached family size c, memory)
      | .ok none => ((byFallback memory).1, k.cached family size c, (byFallback memory).2) := by
  rw [measured, sought, cached]
  cases pixelSize size with
  | error => rfl
  | ok pixels =>
      simp only [← fetch_fst hc family pixels]
      obtain ⟨_ | _ | _, after⟩ := k.fetch family pixels c <;> rfl

/-- A call is answered as without a cache, and the cache does not depend on what the fallback remembers. -/
theorem answer_eq (hc : c.Sound k) (call : FontCall) (memory : σ) :
    k.meter.answer call (c, memory) =
      ((k.answered call memory).1, k.cached call.family call.size c, (k.answered call memory).2) := by
  cases call with
  | extent family size =>
      simp only [FontMeter.answer, meter, measured_eq hc, answered, FontCall.family, FontCall.size]
      obtain _ | _ | _ := k.sought family size <;> rfl
  | textWidth family size text =>
      simp only [FontMeter.answer, meter, measured_eq hc, answered, FontCall.family, FontCall.size]
      obtain _ | _ | _ := k.sought family size <;> rfl

theorem answered_snd (k : FontSource σ ε) (call : FontCall) (memory : σ) :
    (k.answered call memory).2 = memory ∨ (k.answered call memory).2 = (k.fallback.answer call memory).2 := by
  rw [answered]
  obtain _ | _ | _ := k.sought call.family call.size
  · exact .inl rfl
  · exact .inr rfl
  · exact .inl rfl

/-! ## Runs -/

/-- What is remembered after calls: the cache is sound and holds what they sought, and the fallback remembers what
some calls leave of what it remembered first. -/
structure Remembers (k : FontSource σ ε) (memory : σ) (calls : List FontCall) (r : FontCache ε × σ) : Prop where
  sound : r.1.Sound k
  holds : ∀ call ∈ calls, ∀ pixels, pixelSize call.size = .ok pixels → r.1.Holds k (lowered call.family) pixels
  reached : ∃ asked, r.2 = (k.fallback.run memory asked).2

theorem remembers_nil (k : FontSource σ ε) (memory : σ) : k.Remembers memory [] ({}, memory) where
  sound := k.sound_empty
  holds := nofun
  reached := ⟨[], rfl⟩

theorem Remembers.answer {calls : List FontCall} {r : FontCache ε × σ} (remembers : k.Remembers memory calls r)
    (call : FontCall) : k.Remembers memory (calls ++ [call]) (k.meter.answer call r).2 := by
  rw [← Prod.eta r, answer_eq remembers.sound]
  refine ⟨sound_cached remembers.sound _ _, fun earlier made pixels sized => ?_, ?_⟩
  · rw [cached]
    obtain before | last := List.mem_append.mp made
    · have held := remembers.holds earlier before pixels sized
      cases pixelSize call.size with
      | error => exact held
      | ok => exact holds_fetch_of_holds held
    · rw [List.mem_singleton.mp last] at sized ⊢
      simp only [sized]
      exact holds_fetch remembers.sound call.family pixels
  -- The fallback is asked only where no font is found, and so by fewer calls than were made.
  · obtain ⟨asked, reached⟩ := remembers.reached
    obtain same | asks := k.answered_snd call r.2
    · exact ⟨asked, same.trans reached⟩
    · refine ⟨asked ++ [call], asks.trans ?_⟩
      rw [FontMeter.run_append, ← reached]
      rfl

theorem remembers_run (k : FontSource σ ε) (memory : σ) (calls : List FontCall) :
    k.Remembers memory calls (k.meter.run ({}, memory) calls).2 := by
  induction calls using List.reverseRecOn with
  | nil => exact k.remembers_nil memory
  | append_singleton calls call ih =>
      rw [FontMeter.run_append]
      exact ih.answer call

theorem steady_meter (steady : k.fallback.Steady memory) : k.meter.Steady ({}, memory) := by
  intro calls call
  have remembers := k.remembers_run memory calls
  obtain ⟨asked, reached⟩ := remembers.reached
  rw [← Prod.eta (k.meter.run ({}, memory) calls).2, answer_eq remembers.sound, answer_eq k.sound_empty, reached]
  simp only [answered]
  cases k.sought call.family call.size with
  | error => rfl
  | ok found =>
      cases found with
      | some font => rfl
      | none => exact steady asked call

/-- A call is answered, and the fallback left, as with an empty cache; if the answers of the fallback do not depend on
earlier calls, then as if no calls had been made. What was found is held under the family in small letters and the
pixel size, so that a call adds nothing to the cache if an earlier one had both in common with it. -/
theorem answer_run (k : FontSource σ ε) (memory : σ) (calls : List FontCall) (call : FontCall) :
    let remembered := (k.meter.run ({}, memory) calls).2
    let made := k.meter.answer call remembered
    let fresh := k.meter.answer call ({}, remembered.2)
    made.1 = fresh.1 ∧ made.2.2 = fresh.2.2 ∧
      (k.fallback.Steady memory → made.1 = (k.meter.answer call ({}, memory)).1) ∧
      (∀ pixels, pixelSize call.size = .ok pixels → made.2.1.Holds k (lowered call.family) pixels) ∧
      ((∃ earlier ∈ calls, lowered earlier.family = lowered call.family ∧
        pixelSize earlier.size = pixelSize call.size) → made.2.1 = remembered.1) := by
  intro remembered made fresh
  have remembers := k.remembers_run memory calls
  have made_eq : made = _ := answer_eq remembers.sound call remembered.2
  have fresh_eq : fresh = _ := answer_eq k.sound_empty call remembered.2
  have held := (remembers.answer call).holds call List.mem_concat_self
  refine ⟨by rw [made_eq, fresh_eq], by rw [made_eq, fresh_eq], fun steady => steady_meter steady calls call, held, ?_⟩
  rintro ⟨earlier, before, family, size⟩
  rw [made_eq]
  change k.cached call.family call.size remembered.1 = remembered.1
  rw [cached]
  cases sized : pixelSize call.size with
  | error => rfl
  | ok pixels =>
      have known := remembers.holds earlier before pixels (size.trans sized)
      rw [family] at known
      exact fetch_snd_of_holds known

/-- Two files, one of which is missing, and for other families a third with a cache of its own. -/
def files : FontSource (FontCache MeasureError × Unit) MeasureError :=
  FontFiles.source {
    paths := [("Roboto", "roboto.ttf"), ("Broken", "missing.ttf")]
    faces := [("roboto.ttf", { ascent := 928, descent := 244, width := 500 })] }
    (FontMetrics.meter (.files {
      paths := [("Arial", "arial.ttf")]
      faces := [("arial.ttf", { ascent := 905, descent := -212, width := 550 })] } .typical))

/-- Calls of which the one for a negative descent and the one at an infinite size are refused. -/
def asked : List FontCall :=
  [.extent "Roboto" 16.0, .textWidth "broken" 20.0 "ab".toList, .extent "ARIAL" 12.5, .extent "Roboto" (1.0 / 0.0)]

theorem answer_asked : files.fallback.Steady ({}, ()) ∧
    let remembered := (files.meter.run ({}, {}, ()) asked).2
    let call := FontCall.textWidth "ROBOTO" 16.3 "abc".toList
    (remembered.1.entries.map fun (key, found) => (key, found.isSome)) =
        [(("arial", 12), false), (("broken", 20), false), (("roboto", 16), true)] ∧
      (files.meter.answer call remembered).1 = (files.meter.answer call ({}, {}, ())).1 ∧
      (files.meter.answer call remembered).2.1.Holds files "roboto" 16 ∧
      (files.meter.answer call remembered).2.1 = remembered.1 := by
  have steady : files.fallback.Steady ({}, ()) := steady_meter (FontGauge.steady_meter _)
  obtain ⟨-, -, transparent, held, shared⟩ :=
    answer_run files ({}, ()) asked (.textWidth "ROBOTO" 16.3 "abc".toList)
  have nearest : Decimal.rounded? 16.0 = some 16 ∧ Decimal.rounded? 16.3 = some 16 := by decide +kernel
  have sized : pixelSize 16.0 = .ok 16 ∧ pixelSize 16.3 = .ok 16 := by simp [pixelSize, nearest]
  have family : lowered "ROBOTO" = "roboto" := by decide
  refine ⟨steady, by decide +kernel, transparent steady, family ▸ held 16 sized.2, ?_⟩
  exact shared ⟨.extent "Roboto" 16.0, .head _, by decide, sized.1.trans sized.2.symm⟩

end FontSource

/-! ## Metrics with caches -/

namespace FontMetrics

theorem sought_source (f : FontFiles) (fallback : FontMeter σ MeasureError) (family : String) (size : Float) :
    (f.source fallback).sought family size =
      (pixelSize size).map fun pixels => (f.face? (lowered family)).map (·.load pixels) := by
  rw [FontSource.sought]
  cases pixelSize size with
  | error => rfl
  | ok pixels =>
      simp only [FontSource.find, FontFiles.source, FontFiles.face?]
      cases pathFor? f.paths (lowered family) <;> rfl

theorem steady_meter (m : FontMetrics) : m.meter.Steady (m.memory {}) := by
  induction m with
  | proportional => exact FontGauge.steady_meter _
  | files f fallback ih => exact FontSource.steady_meter ih

theorem answer_gauge_files (f : FontFiles) (fallback : FontMetrics) (call : FontCall) :
    ((files f fallback).gauge.meter.answer call ()).1 =
      match pixelSize call.size with
      | .error e => .error e
      | .ok pixels =>
        match f.face? (lowered call.family) with
        | some face => (face.load pixels).answer id call
        | none => (fallback.gauge.meter.answer call ()).1 := by
  cases call with
  | extent family size =>
      change ((files f fallback).extent family size).map _ = _
      rw [FontMetrics.extent, FontCall.size]
      cases pixelSize size with
      | error => rfl
      | ok => cases face : f.face? (lowered family) <;> simp only [FontCall.family, face] <;> rfl
  | textWidth family size text =>
      change ((files f fallback).textWidth family size text).map _ = _
      rw [FontMetrics.textWidth, FontCall.size]
      cases pixelSize size with
      | error => rfl
      | ok => cases face : f.face? (lowered family) <;> simp only [FontCall.family, face] <;> rfl

/-- With empty caches metrics answer as without. -/
theorem answer_meter (m : FontMetrics) (call : FontCall) :
    (m.meter.answer call (m.memory {})).1 = (m.gauge.meter.answer call ()).1 := by
  induction m with
  | proportional => rfl
  | files f fallback ih =>
      change ((f.source fallback.meter).meter.answer call ({}, fallback.memory {})).1 = _
      rw [FontSource.answer_eq (FontSource.sound_empty _), FontSource.answered, sought_source, answer_gauge_files]
      cases pixelSize call.size with
      | error => rfl
      | ok =>
          cases f.face? (lowered call.family) with
          | some face => rfl
          | none => exact ih

/-- Metrics with a cache for all their files answer every call of a row as they do with none. -/
theorem run_meter (m : FontMetrics) (calls : List FontCall) :
    (m.meter.run (m.memory {}) calls).1 = calls.map fun call => (m.gauge.meter.answer call ()).1 := by
  rw [m.steady_meter.run_fst]
  exact List.map_congr_left fun call _ => m.answer_meter call

end FontMetrics

end SvgForm
