import FormulaOutline.Function.Days
import FormulaOutline.Function.Flight
import FormulaOutline.Function.Geo
import FormulaOutline.Function.Get
import FormulaOutline.Function.Place
import FormulaOutline.Function.Sum
import FormulaOutline.Function.Weather

/-!
# Registries

* `Registry.builtin` holds all functions, `Registry.minimal` only the one that fields need.
-/

namespace FormulaOutline.Registry

open Functions

/-- Only the function that takes fields. -/
def minimal : Registry := [get]

/-- All functions. Those that ask a provider fail if there is none; the flag says whether there is
one for the weather. -/
def builtin (hasWeather : Bool) : Registry :=
  [get, sum, distance, days, route, place, weather hasWeather, flight]

/-- A short description of a registry. -/
def describe (r : Registry) : String :=
  "FunctionRegistry " ++ Value.braced
    (" functions: [" ++ ", ".intercalate (r.names.map Text.quoted) ++ "] ")

end FormulaOutline.Registry
