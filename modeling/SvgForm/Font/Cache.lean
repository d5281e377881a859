import SvgForm.Font.Metrics
/-! # Caching fonts

A font is loaded once for each family and pixel size. The cache remembers what was found, also when it was
nothing. Families without a font are measured by something else, which may remember things of its own.
-/

namespace SvgForm

variable {σ ε : Type}

/-! ## Measuring with a memory -/

/-- Whatever measures fonts and remembers something: each answer comes with what is remembered after it. -/
structure FontMeter (σ ε : Type) where
  extent (family : String) (size : Float) (memory : σ) : Except ε FontExtent × σ
  textWidth (family : String) (size : Float) (text : List Char) (memory : σ) : Except ε Float × σ

/-- A gauge has nothing to remember. -/
def FontGauge.meter (g : FontGauge ε) : FontMeter Unit ε where
  extent family size memory := (g.extent family size, memory)
  textWidth family size text memory := (g.textWidth family size text, memory)

/-- What a meter is asked for. -/
inductive FontCall
  | extent (family : String) (size : Float)
  | textWidth (family : String) (size : Float) (text : List Char)

inductive FontAnswer
  | extent (e : FontExtent)
  | textWidth (w : Float)

namespace FontCall

def family : FontCall → String
  | extent family _ => family
  | textWidth family _ _ => family

def size : FontCall → Float
  | extent _ size => size
  | textWidth _ size _ => size

end FontCall

namespace FontMeter

def answer (m : FontMeter σ ε) (c : FontCall) (memory : σ) : Except ε FontAnswer × σ :=
  match c with
  | .extent family size =>
    let (e, memory) := m.extent family size memory
    (e.map .extent, memory)
  | .textWidth family size text =>
    let (w, memory) := m.textWidth family size text memory
    (w.map .textWidth, memory)

/-- Answers calls in order. -/
def run (m : FontMeter σ ε) (memory : σ) : List FontCall → List (Except ε FontAnswer) × σ
  | [] => ([], memory)
  | c :: rest =>
    let (answer, memory) := m.answer c memory
    let (answers, memory) := m.run memory rest
    (answer :: answers, memory)

end FontMeter

/-! ## Fonts from files -/

/-- Where fonts come from: the paths of files by family; what is loaded from a path at a pixel size, which is
nothing if the file cannot be read; and what measures the families without a font. -/
structure FontSource (σ ε : Type) where
  paths : List (String × String)
  load (path : String) (pixels : Nat) : Except ε (Option (Typeface ε))
  fallback : FontMeter σ ε
  /-- An error of measuring as one that is raised here. -/
  refuse : MeasureError → ε

/-- What was found for families, in small letters, at pixel sizes. -/
structure FontCache (ε : Type) where
  entries : List ((String × Nat) × Option (Typeface ε)) := []

namespace FontSource

/-- The font of a family, in small letters, at a pixel size. -/
def find (k : FontSource σ ε) (family : String) (pixels : Nat) : Except ε (Option (Typeface ε)) :=
  match pathFor? k.paths family with
  | none => .ok none
  | some path => k.load path pixels

/-- The font of a family at a pixel size, as it is remembered, or else loaded and then remembered. -/
def fetch (k : FontSource σ ε) (family : String) (pixels : Nat) (c : FontCache ε) :
    Except ε (Option (Typeface ε)) × FontCache ε :=
  let key := (lowered family, pixels)
  match c.entries.lookup key with
  | some found => (.ok found, c)
  | none =>
    match k.find key.1 pixels with
    | .error e => (.error e, c)
    | .ok found => (.ok found, { entries := (key, found) :: c.entries })

/-- Measures by the font of a family at a size, or where there is none by the fallback. -/
def measured {α : Type} (k : FontSource σ ε) (family : String) (size : Float) (byFont : Typeface ε → Except ε α)
    (byFallback : σ → Except ε α × σ) : FontCache ε × σ → Except ε α × (FontCache ε × σ)
  | (c, memory) =>
    match pixelSize size with
    | .error e => (.error (k.refuse e), c, memory)
    | .ok pixels =>
      match k.fetch family pixels c with
      | (.error e, c) => (.error e, c, memory)
      | (.ok (some font), c) => (byFont font, c, memory)
      | (.ok none, c) =>
        let (made, memory) := byFallback memory
        (made, c, memory)

/-- Measures with a cache beside what the fallback remembers. -/
def meter (k : FontSource σ ε) : FontMeter (FontCache ε × σ) ε where
  extent family size := k.measured family size (·.extent k.refuse size) (k.fallback.extent family size)
  textWidth family size text := k.measured family size (·.textWidth size text) (k.fallback.textWidth family size text)

end FontSource

/-- The families and pixel sizes in a cache, sorted, with whether a font was found for each. -/
def FontCache.listing (c : FontCache ε) : List (String × Nat × Bool) :=
  (c.entries.map fun ((family, pixels), found) => (family, pixels, found.isSome)).mergeSort
    fun a b => a.1 < b.1 || (a.1 = b.1 && decide (a.2.1 ≤ b.2.1))

/-! ## Metrics with caches -/

/-- Font files as a source of fonts. -/
def FontFiles.source (f : FontFiles) (fallback : FontMeter σ MeasureError) : FontSource σ MeasureError :=
  { paths := f.paths, load := f.load, fallback, refuse := id }

namespace FontMetrics

/-- What is remembered: a cache for files, and whatever their fallback remembers. -/
def Memory : FontMetrics → Type
  | .proportional .. => Unit
  | .files _ fallback => FontCache MeasureError × fallback.Memory

/-- The memory with a cache for the first files. -/
def memory (c : FontCache MeasureError) : (m : FontMetrics) → m.Memory
  | .proportional .. => ()
  | .files _ fallback => (c, fallback.memory {})

/-- The cache for the first files. -/
def cache : (m : FontMetrics) → m.Memory → FontCache MeasureError
  | .proportional .., _ => {}
  | .files .., memory => memory.1

/-- Measures with a cache for all files. -/
def meter : (m : FontMetrics) → FontMeter m.Memory MeasureError
  | .proportional ascent descent width => (FontMetrics.proportional ascent descent width).gauge.meter
  | .files f fallback => (f.source fallback.meter).meter

end FontMetrics

/-- A question about a font. -/
structure FontQuery where
  family : String
  size : Float
  text : List Char
  gap : Float

/-- The answer to it. -/
structure Measurement where
  extent : FontExtent
  width : Float
  lineHeight : Float

namespace FontMeter

/-- Answers a question: the extent first, and the width if there is one. -/
def measure (m : FontMeter σ ε) (q : FontQuery) (memory : σ) : Except ε Measurement × σ :=
  match m.extent q.family q.size memory with
  | (.error e, memory) => (.error e, memory)
  | (.ok extent, memory) =>
    match m.textWidth q.family q.size q.text memory with
    | (.error e, memory) => (.error e, memory)
    | (.ok width, memory) => (.ok { extent, width, lineHeight := extent.lineHeight q.size q.gap }, memory)

/-- Answers questions in order. -/
def measureAll (m : FontMeter σ ε) (memory : σ) : List FontQuery → List (Except ε Measurement) × σ
  | [] => ([], memory)
  | q :: rest =>
    let (answer, memory) := m.measure q memory
    let (answers, memory) := m.measureAll memory rest
    (answer :: answers, memory)

end FontMeter

/-- Answers questions about metrics in order, with a cache to begin with. -/
def FontCache.measureAll (c : FontCache MeasureError) (m : FontMetrics) (questions : List FontQuery) :
    List (Except MeasureError Measurement) × FontCache MeasureError :=
  let (answers, memory) := m.meter.measureAll (m.memory c) questions
  (answers, m.cache memory)

end SvgForm
