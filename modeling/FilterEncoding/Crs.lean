import FilterEncoding.Number.Digits
import FilterEncoding.Text

/-!
# Coordinate reference systems

A reference system is named by an EPSG code in one of several notations.  The notation matters: in
the URN and definition notations a geographic code gives the latitude first.
-/

namespace FilterEncoding

/-- The notation of a reference. -/
inductive CrsForm where
  /-- As in `EPSG:4326`. -/
  | short
  /-- As in `urn:ogc:def:crs:EPSG::4326`, with an optional version in front of the code. -/
  | urn
  /-- As in `urn:EPSG:geographicCRS:4326`. -/
  | urnGeographic
  /-- As in `http://www.opengis.net/gml/srs/epsg.xml#4326`. -/
  | epsgXml
  /-- As in `http://www.opengis.net/def/crs/EPSG/0/4326`. -/
  | defCrs
  deriving Repr, DecidableEq

structure Crs where
  code : Nat
  form : CrsForm
  deriving Repr, DecidableEq

/-- A reference that is in none of the notations, or whose code is no 32-bit number. -/
structure UnknownCrs where
  reference : String
  deriving Repr, DecidableEq

namespace UnknownCrs

def message (e : UnknownCrs) : String :=
  "unrecognized CRS reference: " ++ e.reference

end UnknownCrs

namespace Crs

/-- What each notation starts with, in lower case. -/
def openings : List (String × CrsForm) :=
  [("epsg:", .short), ("urn:ogc:def:crs:epsg:", .urn), ("urn:epsg:geographiccrs:", .urnGeographic),
   ("http://www.opengis.net/gml/srs/epsg.xml#", .epsgXml),
   ("http://www.opengis.net/def/crs/epsg/0/", .defCrs)]

/-- The notation and the code text of a reference in lower case.  Any reference that ends in
`crs84` is the short form of 4326, unless it starts as another notation does. -/
def split? (cs : List Char) : Option (CrsForm × List Char) :=
  match openings.find? fun (opening, _) => opening.toList.isPrefixOf cs with
  | some (opening, form) =>
      let rest := cs.drop opening.toList.length
      some (form, if form = .urn then Chars.afterLast ':' rest else rest)
  | none => if "crs84".toList.isSuffixOf cs then some (.short, "4326".toList) else none

/-- Read a reference, whatever its letter case and with blanks around it. -/
def ofText (text : String) : Except UnknownCrs Crs :=
  let reference := Text.trim text
  let found := do
    let (form, digits) ← split? (Chars.lower reference.toList)
    let code ← Number.unsigned? (UInt32.size - 1) (String.ofList digits)
    pure ⟨code, form⟩
  match found with
  | some crs => .ok crs
  | none => .error ⟨reference⟩

/-- Whether positions give the latitude first. -/
def isLatitudeFirst (crs : Crs) : Bool :=
  (crs.form = .urn || crs.form = .urnGeographic || crs.form = .defCrs) &&
    4000 ≤ crs.code && crs.code ≤ 4999

/-- The short notation. -/
def epsg (crs : Crs) : String :=
  "EPSG:" ++ Nat.repr crs.code

/-- Whether positions with this reference give the latitude first.  Without a reference, or with
an unknown one, they do not. -/
def latitudeFirst (reference : Option String) : Bool :=
  match reference with
  | none => false
  | some text =>
      match ofText text with
      | .ok crs => crs.isLatitudeFirst
      | .error _ => false

end Crs

end FilterEncoding
