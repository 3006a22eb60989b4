import FilterEncoding.Proofs.Gml.Encodings
import FilterEncoding.Proofs.Gml.Oriented

/-!
# Figures

A geometry element is read as the lists of positions that are written in it, in whichever
encodings they are.

* `Figure` — a geometry as the lists of positions that it is made of.
* `Figure.IsWrittenIn` — the geometry elements where the lists of a figure are written.
* `shape_of_isWrittenIn` — the shape of a geometry element is that of the figure in it.
-/

namespace FilterEncoding.Gml

open FilterEncoding.Geometry (Polygon Position Shape)
open FilterEncoding.Xml (Node)

/-- The rings of a polygon. -/
structure Rings where
  exterior : PositionTexts
  interiors : List PositionTexts

namespace Rings

def all (rings : Rings) : List PositionTexts :=
  rings.exterior :: rings.interiors

/-- The polygon that the rings enclose, with each position mapped. -/
def polygon (f : Position → Position) (rings : Rings) : Polygon :=
  .ofRings (rings.exterior.positions.map f) (rings.interiors.map fun ring => ring.positions.map f)

/-- The rings are written in the ring elements below some element of the geometry element `n`. -/
def AreWrittenAt (rings : Rings) (n place : Node) : Prop :=
  List.Forall₂ (fun ring m => ring.IsWrittenAt n m) rings.all
    (place.descendantsNamed ["LinearRing"])

end Rings

/-- A geometry as the lists of positions that it is made of. -/
inductive Figure where
  | point (list : PositionTexts)
  | lineString (list : PositionTexts)
  | polygon (rings : Rings)
  | multiPoint (members : List PositionTexts)
  | multiLineString (members : List PositionTexts)
  | multiPolygon (members : List Rings)

namespace Figure

/-- The shape of a figure, with each position mapped.  A point is at the first position of its
list. -/
def shape (f : Position → Position) : Figure → Shape
  | point list => .point (f list.first.position)
  | lineString list => .lineString (list.positions.map f)
  | polygon rings => .polygon (rings.polygon f)
  | multiPoint members => .multiPoint (members.map fun list => f list.first.position)
  | multiLineString members => .multiLineString (members.map fun list => list.positions.map f)
  | multiPolygon members => .multiPolygon (members.map (Rings.polygon f))

/-- The lists of a figure are written in a geometry element, where its kind has them. -/
inductive IsWrittenIn : Figure → Node → Prop
  | point {list : PositionTexts} {n : Node}
      (hname : n.name? = some "Point" ∨ n.name? = some "PointType")
      (hlist : list.IsWrittenAt n n) : IsWrittenIn (point list) n
  | lineString {list : PositionTexts} {n : Node}
      (hname : n.name? = some "LineString" ∨ n.name? = some "Curve")
      (hlist : list.IsWrittenAt n n) : IsWrittenIn (lineString list) n
  | polygon {rings : Rings} {n : Node}
      (hname : n.name? = some "Polygon" ∨ n.name? = some "Surface")
      (hrings : rings.AreWrittenAt n n) : IsWrittenIn (polygon rings) n
  | multiPoint {members : List PositionTexts} {n : Node} (hname : n.name? = some "MultiPoint")
      (hne : members ≠ [])
      (hmembers : List.Forall₂ (fun list m => list.IsWrittenAt n m) members
        (n.descendantsNamed ["Point"])) :
      IsWrittenIn (multiPoint members) n
  | multiLineString {members : List PositionTexts} {n : Node}
      (hname : n.name? = some "MultiLineString" ∨ n.name? = some "MultiCurve")
      (hne : members ≠ [])
      (hmembers : List.Forall₂ (fun list m => list.IsWrittenAt n m) members
        (n.descendantsNamed ["LineString", "LineStringSegment"])) :
      IsWrittenIn (multiLineString members) n
  | multiPolygon {members : List Rings} {n : Node}
      (hname : n.name? = some "MultiPolygon" ∨ n.name? = some "MultiSurface")
      (hne : members ≠ [])
      (hmembers : List.Forall₂ (fun rings m => rings.AreWrittenAt n m) members
        (n.descendantsNamed ["Polygon", "PolygonPatch"])) :
      IsWrittenIn (multiPolygon members) n

end Figure

/-! ## Axes -/

theorem Rings.swapped_polygon (rings : Rings) :
    (rings.polygon id).map Position.swapped = rings.polygon Position.swapped := by
  have hmeets (list : PositionTexts) : ∀ p ∈ list.positions.map id, p.meets p = true := by
    rw [List.map_id]
    exact fun p hp => list.meets_of_mem_positions hp
  rw [Rings.polygon, Polygon.map_swapped_ofRings (hmeets rings.exterior)
    (List.forall_mem_map.2 fun ring _ => hmeets ring)]
  simp [Rings.polygon, Function.comp_def]

/-- The axes of the shape of a figure are exchanged position by position. -/
theorem Figure.swapped_shape (figure : Figure) :
    (figure.shape id).swapped = figure.shape Position.swapped := by
  cases figure with
  | point list => rfl
  | lineString list => simp [Figure.shape, Shape.swapped, Shape.map]
  | polygon rings => exact congrArg Shape.polygon rings.swapped_polygon
  | multiPoint members => simp [Figure.shape, Shape.swapped, Shape.map]
  | multiLineString members => simp [Figure.shape, Shape.swapped, Shape.map]
  | multiPolygon members =>
      simp [Figure.shape, Shape.swapped, Shape.map, Rings.swapped_polygon]

/-! ## Elements -/

theorem firstPosition_of_isWrittenAt {list : PositionTexts} {n place : Node}
    (h : list.IsWrittenAt n place) :
    firstPosition (dimension 2 n) place = .ok list.first.position := by
  rw [firstPosition, positions_of_isWrittenAt h]
  rfl

theorem polygon_of_areWrittenAt {rings : Rings} {n place : Node} (h : rings.AreWrittenAt n place) :
    polygon (dimension 2 n) place = .ok (rings.polygon id) := by
  have hread : (place.descendantsNamed ["LinearRing"]).mapM (positions (dimension 2 n)) =
      .ok (rings.all.map PositionTexts.positions) :=
    mapM_eq_ok_map (h.imp fun _ _ hring => positions_of_isWrittenAt hring)
  rw [polygon, hread]
  simp [Rings.all, Rings.polygon, bind, Except.bind, pure, Except.pure]

/-- Members that are read one by one, of which there is one. -/
theorem members_of_forall₂ {α β : Type} {names : List String} {read : Node → Except Fault β}
    {f : α → β} {items : List α} {n : Node} (hne : items ≠ [])
    (h : List.Forall₂ (fun a m => read m = .ok (f a)) items (n.descendantsNamed names)) :
    members names read n = .ok (items.map f) := by
  have hnodes : n.descendantsNamed names ≠ [] := by
    intro hnil
    rw [hnil] at h
    cases h
    exact hne rfl
  rw [members_eq_mapM hnodes, mapM_eq_ok_map h]

/-- The shape of an element that has a figure in it, in the order the positions are written in. -/
theorem writtenShape?_of_isWrittenIn {figure : Figure} {n : Node} (h : figure.IsWrittenIn n) :
    writtenShape? n = some (.ok (figure.shape id)) := by
  cases h with
  | point hname hlist =>
      rcases hname with hname | hname <;>
        simp [writtenShape?, hname, firstPosition_of_isWrittenAt hlist, Figure.shape]
  | lineString hname hlist =>
      rcases hname with hname | hname <;>
        simp [writtenShape?, hname, positions_of_isWrittenAt hlist, Figure.shape]
  | polygon hname hrings =>
      rcases hname with hname | hname <;>
        simp [writtenShape?, hname, polygon_of_areWrittenAt hrings, Figure.shape]
  | multiPoint hname hne hmembers =>
      have hread := members_of_forall₂ hne (hmembers.imp fun _ _ h =>
        firstPosition_of_isWrittenAt h)
      simp [writtenShape?, hname, hread, Figure.shape]
  | multiLineString hname hne hmembers =>
      have hread := members_of_forall₂ hne (hmembers.imp fun _ _ h => positions_of_isWrittenAt h)
      rcases hname with hname | hname <;> simp [writtenShape?, hname, hread, Figure.shape]
  | multiPolygon hname hne hmembers =>
      have hread := members_of_forall₂ hne (hmembers.imp fun _ _ h => polygon_of_areWrittenAt h)
      rcases hname with hname | hname <;> simp [writtenShape?, hname, hread, Figure.shape]

/-- How the positions of a geometry with this reference system are mapped. -/
def orientation (reference : Option String) : Position → Position :=
  if Crs.latitudeFirst reference then Position.swapped else id

/-- The shape of a geometry element is that of the figure written in it, whatever the encodings of
its lists, with the axes exchanged if the latitude comes first. -/
theorem shape_of_isWrittenIn {figure : Figure} {n : Node} (h : figure.IsWrittenIn n) :
    shape n = .ok (figure.shape (orientation (innerReference? n)), innerReference? n) := by
  rw [shape_of_writtenShape? (writtenShape?_of_isWrittenIn h), oriented, orientation]
  cases Crs.latitudeFirst (innerReference? n) with
  | false => rfl
  | true => exact congrArg (fun s => Except.ok (s, innerReference? n)) figure.swapped_shape

def hole : PositionTexts :=
  ⟨2, ⟨"1", "2", []⟩, [⟨"3", "8", []⟩, ⟨"1", "8", []⟩], by decide, by decide⟩

/-- A ring with the elevation and a hole without it. -/
def hollow : Rings where
  exterior := ⟨3, ⟨"0", "0", ["7"]⟩, [⟨"0", "9", ["7"]⟩, ⟨"9", "9", ["7"]⟩], by decide, by decide⟩
  interiors := [hole]

def hollowElement : Node :=
  .element "Polygon" [⟨"srsName", "urn:ogc:def:crs:EPSG::4326"⟩, ⟨"srsDimension", "3"⟩]
    [.element "exterior" [] [.element "LinearRing" []
        [.element "posList" [] [.text "0 0 7 0 9 7 9 9 7"]]],
     .element "interior" [] [.element "LinearRing" []
        [.element "coordinates" [⟨"ts", ";"⟩, ⟨"cs", ":"⟩] [.text " 1:2; 3:8;1: 8"]]]]

theorem shape_of_isWrittenIn_hollow :
    (Figure.polygon hollow).IsWrittenIn hollowElement ∧
      shape hollowElement = .ok ((Figure.polygon hollow).shape Position.swapped,
        some "urn:ogc:def:crs:EPSG::4326") := by
  have hseparators : IsSeparator ';' hole ∧ IsSeparator ':' hole ∧ ';' ≠ ':' :=
    ⟨⟨by decide, by decide⟩, ⟨by decide, by decide⟩, by decide⟩
  have htext : Text.trim " 1:2; 3:8;1: 8" = ";".intercalate ["1:2", " 3:8", "1: 8"] := by
    decide +kernel
  have htuples : List.Forall₂ (fun p tuple => IsTuple ':' p.tokens tuple) hole.items
      ["1:2", " 3:8", "1: 8"] :=
    .cons ⟨["1", "2"], by decide +kernel, by decide +kernel⟩ <|
      .cons ⟨["3", "8"], by decide +kernel, by decide +kernel⟩ <|
        .cons ⟨["1", " 8"], by decide +kernel, by decide +kernel⟩ .nil
  have hwritten : (Figure.polygon hollow).IsWrittenIn hollowElement := by
    refine .polygon (.inl rfl) (.cons ?_ (.cons ?_ .nil))
    · exact .posList rfl rfl rfl (hasWords_intercalate (by decide +kernel))
    · exact .separated rfl rfl rfl rfl hseparators ⟨_, rfl, htext⟩ htuples
  refine ⟨hwritten, ?_⟩
  have hfirst : Crs.latitudeFirst (some "urn:ogc:def:crs:EPSG::4326") = true := by decide +kernel
  have hreference : innerReference? hollowElement = some "urn:ogc:def:crs:EPSG::4326" := rfl
  have h := shape_of_isWrittenIn hwritten
  rwa [hreference, orientation, hfirst] at h

end FilterEncoding.Gml
