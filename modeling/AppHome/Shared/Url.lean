import AppHome.Lib.FormUrlencoded
import AppHome.Lib.Utf8

/-!
# URLs

A parsed URL as its components. How a text becomes one and how it is written is the `url` crate's
(`UrlCrate`); the query pairs are read and written here, as `query_pairs` and `query_pairs_mut` do
(`queryPairs_setPairs`).
-/

namespace AppHome

inductive Host where
  | domain (name : String)
  | ipv4 (bits : BitVec 32)
  | ipv6 (bits : BitVec 128)
  deriving DecidableEq

structure Url where
  scheme : String
  username : String
  password : Option String
  host : Option Host
  hostStr : Option String
  port : Option Nat
  path : String
  query : Option String
  fragment : Option String
  deriving DecidableEq

namespace Url

/-- `Url::query_pairs`. -/
def queryPairs (u : Url) : List (String × String) :=
  (FormUrlencoded.parse (Utf8.encode (u.query.getD ""))).map fun p =>
    (Utf8.lossy p.1, Utf8.lossy p.2)

/-- The form-urlencoded text of some pairs. -/
def serializePairs (pairs : List (String × String)) : String :=
  Utf8.ascii (FormUrlencoded.serialize (pairs.map fun p => (Utf8.encode p.1, Utf8.encode p.2)))

/-- `query_pairs_mut().clear().extend_pairs(pairs)`. -/
def setPairs (u : Url) (pairs : List (String × String)) :
    Url := { u with query := some (serializePairs pairs) }

/-- The pairs written are the pairs read. -/
@[simp] theorem queryPairs_setPairs (u : Url) (pairs : List (String × String)) :
    (u.setPairs pairs).queryPairs = pairs := by
  have hbytes : Utf8.encode (serializePairs pairs) =
      FormUrlencoded.serialize (pairs.map fun p => (Utf8.encode p.1, Utf8.encode p.2)) :=
    Utf8.encode_ascii (FormUrlencoded.serialize_ascii _)
  unfold queryPairs setPairs
  rw [Option.getD_some, hbytes, FormUrlencoded.parse_serialize, List.map_map]
  refine (List.map_congr_left fun p _ => ?_).trans (List.map_id _)
  simp only [Function.comp, Utf8.lossy_encode, id]

@[simp] theorem setPairs_setPairs (u : Url) (pairs pairs' : List (String × String)) :
    (u.setPairs pairs).setPairs pairs' = u.setPairs pairs' := rfl

end Url

/-- `Url::parse`, with the text of its error, and `Url::to_string`. -/
structure UrlCrate where
  parse : String → Except String Url
  toText : Url → String

/-- A parsed URL whose query was replaced is read back from its text with every component
as it was. -/
structure UrlCrate.Reparses (lib : UrlCrate) : Prop where
  setPairs : ∀ {s u}, lib.parse s = .ok u →
    ∀ pairs, lib.parse (lib.toText (u.setPairs pairs)) = .ok (u.setPairs pairs)

end AppHome
