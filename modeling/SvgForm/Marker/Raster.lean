/-! # Rasters

A raster holds samples of eight bits row by row, so many channels a pixel. A pixel of an image has four:
red, green and blue, and how opaque it is.
-/

namespace SvgForm.Marker

structure Raster where
  width : Nat
  height : Nat
  channels : Nat
  samples : Array UInt8

/-- A place in a raster, counted from the left and from the top. -/
structure Place where
  x : Nat
  y : Nat
  deriving DecidableEq

structure Pixel where
  red : UInt8
  green : UInt8
  blue : UInt8
  alpha : UInt8
  deriving DecidableEq

namespace Raster

/-- A sample; nought outside the raster. -/
def sample (r : Raster) (p : Place) (channel : Nat) : UInt8 :=
  r.samples[(p.y * r.width + p.x) * r.channels + channel]?.getD 0

/-- The pixel made of the first four channels. -/
def pixel (r : Raster) (p : Place) : Pixel where
  red := r.sample p 0
  green := r.sample p 1
  blue := r.sample p 2
  alpha := r.sample p 3

/-- The places row by row. -/
def places (r : Raster) : List Place :=
  (List.range r.height).flatMap fun y => (List.range r.width).map fun x => { x, y }

/-- The number of samples that the size calls for. -/
def size (r : Raster) : Nat :=
  r.height * r.width * r.channels

end Raster

end SvgForm.Marker
