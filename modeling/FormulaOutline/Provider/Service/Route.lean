import FormulaOutline.Json.Decode
import FormulaOutline.Provider.Report

/-!
# Routes of a routing service

The service answers with a code and, if all is well, with routes in metres and seconds.
-/

namespace FormulaOutline

open Geo

/-- A route as the service sends it. -/
structure RouteEntry where
  metres : Float
  seconds : Float
  geometry : List Location

structure RouteResponse where
  code : String
  message : Option String
  routes : List RouteEntry

/-- A location as a pair, its longitude first. -/
def locationOfPair? : Json.Decoder Location
  | .array [lng, lat] => do
      let lng ← lng.asFloat?
      let lat ← lat.asFloat?
      some ⟨lat, lng⟩
  | _ => none

/-- The course of a route. -/
def courseOfJson? : Json.Decoder (List Location) := fun j => do
  let fields ← j.fields? 1
  fields.required 0 "coordinates" (Json.asList? locationOfPair?)

def RouteEntry.ofJson? : Json.Decoder RouteEntry := fun j => do
  let fields ← j.fields? 3
  let metres ← fields.required 0 "distance" Json.asFloat?
  let seconds ← fields.required 1 "duration" Json.asFloat?
  let geometry ← fields.required 2 "geometry" courseOfJson?
  some ⟨metres, seconds, geometry⟩

namespace RouteResponse

def ofJson? : Json.Decoder RouteResponse := fun j => do
  let fields ← j.fields? 3
  let code ← fields.required 0 "code" Json.asString?
  let message ← fields.withDefault 1 "message" none (Json.nullable Json.asString?)
  let routes ← fields.withDefault 2 "routes" [] (Json.asList? RouteEntry.ofJson?)
  some ⟨code, message, routes⟩

def route (r : RouteResponse) (provider : String) : Except ProviderError Route :=
  if r.code ≠ "Ok" then .error (.invalidResponse provider (r.code ++ ": " ++ r.message.getD ""))
  else
    match r.routes with
    | [] => .error (.invalidResponse provider "No route in response")
    | best :: _ => .ok ⟨best.metres / 1000, best.seconds / 60, best.geometry⟩

end RouteResponse

end FormulaOutline
