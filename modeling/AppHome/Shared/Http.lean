import AppHome.Shared.Values

/-!
# Request headers

A `HeaderMap` is the list of header lines in the order they arrived. `get` reads the first line of a
name, and `toStr` refuses a value with a byte outside visible ASCII.
-/

namespace AppHome

inductive HeaderName where
  | authorization
  | xForwardedFor
  | xRealIp
  | other (name : String)
  deriving DecidableEq

abbrev HeaderMap := List (HeaderName × Bytes)

/-- `HeaderMap::get`: the first line of the name. -/
def HeaderMap.get (headers : HeaderMap) (name : HeaderName) : Option Bytes :=
  (headers.find? fun line => line.1 = name).map Prod.snd

/-- Space to tilde, or a tab. -/
def isVisibleAscii (b : UInt8) : Bool := (32 ≤ b && b < 127) || b = 9

def visible (value : Bytes) : Bool := value.all isVisibleAscii

/-- `HeaderValue::to_str`. -/
def toStr (value : Bytes) : Option Bytes := if visible value then some value else none

end AppHome
