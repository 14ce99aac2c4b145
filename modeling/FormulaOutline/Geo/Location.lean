import FormulaOutline.Number.Layout

/-!
# Locations

Places on the globe by latitude and longitude in degrees.
-/

namespace FormulaOutline.Geo

structure Location where
  lat : Float
  lng : Float
deriving BEq, DecidableEq, Repr

/-- Latitude and longitude with a comma between them. -/
def Location.text (l : Location) : String :=
  Number.plain l.lat ++ "," ++ Number.plain l.lng

/-- The mean radius of the earth in kilometres. -/
def earthRadius : Float := 6371.0088

/-- One degree in radians, `π / 180`. -/
def degree : Float := 0.017453292519943295

def square (x : Float) : Float := x * x

/-- The length in kilometres of the great circle between two locations, by the haversine formula. -/
def distance (a b : Location) : Float :=
  let lat₁ := a.lat * degree
  let lat₂ := b.lat * degree
  let dlat := lat₂ - lat₁
  let dlng := (b.lng - a.lng) * degree
  let h := square (dlat / 2).sin + lat₁.cos * lat₂.cos * square (dlng / 2).sin
  2 * earthRadius * h.sqrt.asin

/-- Whether latitude and longitude are in their ranges. -/
def Location.isOnGlobe (l : Location) : Bool :=
  (-90 ≤ l.lat && l.lat ≤ 90) && (-180 ≤ l.lng && l.lng ≤ 180)

end FormulaOutline.Geo
