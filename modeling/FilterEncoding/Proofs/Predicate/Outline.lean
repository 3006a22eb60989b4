import FilterEncoding.Predicate.Document
import FilterEncoding.Proofs.Readers
import FilterEncoding.Proofs.Xml.Outline

/-!
# Filters and outlines

A filter element gives the same predicate as its outline.  Everything else of a document, such as
comments and the text behind the first element, is of no consequence.

* `Gml.shape_outline`, `Gml.box_outline`, `Gml.envelope_outline` — the geometry of an element.
* `Predicate.ofNode_outline`, `Predicate.ofFilter_outline` — the predicate of an element.
-/

namespace FilterEncoding

open FilterEncoding.Xml (Node)
open FilterEncoding.Xml.Node (outline isTextName)

theorem name?_of_named {name : String} {n : Node} (h : n.named name = true) :
    n.name? = some name :=
  (Node.named_iff name n).1 h

theorem name?_of_child? {name : String} {n m : Node} (h : n.child? name = some m) :
    m.name? = some name :=
  name?_of_named (List.find?_some h)

theorem name?_of_descendant? {name : String} {n m : Node} (h : n.descendant? name = some m) :
    m.name? = some name :=
  name?_of_named (List.find?_some h)

theorem name?_of_mem_descendantsNamed {name : String} {n m : Node}
    (h : m ∈ n.descendantsNamed [name]) : m.name? = some name := by
  have hnamed := (List.mem_filter.1 h).2
  rw [List.any_cons, List.any_nil, Bool.or_false] at hnamed
  exact name?_of_named hnamed

namespace Gml

theorem trimmedText_outline {name : String} {n : Node} (hname : n.name? = some name)
    (htext : isTextName name = true) : trimmedText n.outline = trimmedText n := by
  rw [trimmedText, Node.text?_outline hname htext, trimmedText]

@[simp]
theorem reference?_outline (n : Node) : reference? n.outline = reference? n :=
  Node.attribute?_outline "srsName" n

@[simp]
theorem dimension_outline (inherited : Nat) (n : Node) :
    dimension inherited n.outline = dimension inherited n := by
  simp [dimension]

@[simp]
theorem separator_outline (key usual : String) (n : Node) :
    separator key usual n.outline = separator key usual n := by
  simp [separator]

@[simp]
theorem tupleValues_outline (n : Node) (tuple : String) :
    tupleValues n.outline tuple = tupleValues n tuple := by
  simp [tupleValues]

@[simp]
theorem tuplePosition_outline (n : Node) (tuple : String) :
    tuplePosition n.outline tuple = tuplePosition n tuple := by
  simp [tuplePosition]

@[simp]
theorem boxCorner_outline (n : Node) (tuple : String) :
    boxCorner n.outline tuple = boxCorner n tuple := by
  simp [boxCorner]

theorem tuples_outline {n : Node} (hname : n.name? = some "coordinates") :
    tuples n.outline = tuples n := by
  simp [tuples, trimmedText_outline hname (by decide)]

theorem coordinatesPositions_outline {n : Node} (hname : n.name? = some "coordinates") :
    coordinatesPositions n.outline = coordinatesPositions n := by
  have hposition : tuplePosition n.outline = tuplePosition n := funext (tuplePosition_outline n)
  rw [coordinatesPositions, tuples_outline hname, hposition, coordinatesPositions]

theorem coordPosition_outline (n : Node) : coordPosition n.outline = coordPosition n := by
  unfold coordPosition
  rw [Node.child?_outline, Node.child?_outline]
  cases hx : n.child? "X" with
  | none => rfl
  | some x =>
      cases hy : n.child? "Y" with
      | none => rfl
      | some y =>
          dsimp only [Option.map]
          rw [trimmedText_outline (name?_of_child? hx) (by decide),
            trimmedText_outline (name?_of_child? hy) (by decide)]

theorem posPosition_outline {n : Node} (hname : n.name? = some "pos") :
    posPosition n.outline = posPosition n := by
  rw [posPosition, trimmedText_outline hname (by decide), posPosition]

theorem posListPositions_outline (inherited : Nat) {n : Node} (hname : n.name? = some "posList") :
    posListPositions inherited n.outline = posListPositions inherited n := by
  unfold posListPositions
  rw [trimmedText_outline hname (by decide), dimension_outline]

@[simp]
theorem positions_outline (inherited : Nat) (n : Node) :
    positions inherited n.outline = positions inherited n := by
  unfold positions
  rw [Node.descendant?_outline, Node.descendantsNamed_outline, Node.descendant?_outline,
    Node.descendantsNamed_outline, Node.name?_outline]
  cases hlist : n.descendant? "posList" with
  | some list => exact posListPositions_outline inherited (name?_of_descendant? hlist)
  | none =>
      dsimp only [Option.map]
      cases hpos : n.descendantsNamed ["pos"] with
      | cons pos more =>
          refine mapM_map_of_forall (pos :: more) fun m hm => posPosition_outline ?_
          exact name?_of_mem_descendantsNamed (hpos ▸ hm)
      | nil =>
          dsimp only [List.map_nil]
          cases hcoordinates : n.descendant? "coordinates" with
          | some coordinates =>
              exact coordinatesPositions_outline (name?_of_descendant? hcoordinates)
          | none =>
              cases n.descendantsNamed ["coord"] with
              | cons coord more =>
                  exact mapM_map_of_forall (coord :: more) fun m _ => coordPosition_outline m
              | nil => rfl

@[simp]
theorem firstPosition_outline (inherited : Nat) (n : Node) :
    firstPosition inherited n.outline = firstPosition inherited n := by
  rw [firstPosition, positions_outline, Node.name?_outline, firstPosition]

@[simp]
theorem polygon_outline (inherited : Nat) (n : Node) :
    polygon inherited n.outline = polygon inherited n := by
  rw [polygon, Node.descendantsNamed_outline, Node.name?_outline,
    mapM_map_of_forall _ fun ring _ => positions_outline inherited ring, polygon]

theorem members_outline {α : Type} {read : Node → Except Fault α}
    (hread : ∀ m : Node, read m.outline = read m) (names : List String) (n : Node) :
    members names read n.outline = members names read n := by
  rw [members, Node.descendantsNamed_outline, Node.name?_outline, members]
  cases n.descendantsNamed names with
  | nil => rfl
  | cons member more => exact mapM_map_of_forall (member :: more) fun m _ => hread m

theorem writtenShape?_outline (n : Node) : writtenShape? n.outline = writtenShape? n := by
  simp [writtenShape?, members_outline]

theorem boxCorners_outline (n : Node) : boxCorners n.outline = boxCorners n := by
  unfold boxCorners
  rw [Node.child?_outline, Node.filter_named_outline]
  cases hcoordinates : n.child? "coordinates" with
  | some coordinates =>
      have hcorner : boxCorner coordinates.outline = boxCorner coordinates :=
        funext (boxCorner_outline coordinates)
      dsimp only [Option.map]
      rw [tuples_outline (name?_of_child? hcoordinates), hcorner]
  | none =>
      dsimp only [Option.map]
      match n.content.filter (Node.named "coord") with
      | [] | [_] | _ :: _ :: _ :: _ => rfl
      | [first, second] =>
          dsimp only [List.map]
          rw [coordPosition_outline, coordPosition_outline]

theorem box_outline (n : Node) : box n.outline = box n := by
  rw [box, boxCorners_outline, reference?_outline, box]

theorem envelope_outline (n : Node) : envelope n.outline = envelope n := by
  unfold envelope
  rw [Node.descendant?_outline, Node.descendant?_outline, reference?_outline]
  cases hlower : n.descendant? "lowerCorner" with
  | none => rfl
  | some lower =>
      cases hupper : n.descendant? "upperCorner" with
      | none => rfl
      | some upper =>
          dsimp only [Option.map]
          rw [trimmedText_outline (name?_of_descendant? hlower) (by decide),
            trimmedText_outline (name?_of_descendant? hupper) (by decide)]

theorem innerReference?_outline (n : Node) : innerReference? n.outline = innerReference? n :=
  (Node.areOutlines_nodes n).findSome?_attribute? "srsName"

theorem shape_outline (n : Node) : shape n.outline = shape n := by
  rw [shape, writtenShape?_outline, innerReference?_outline, Node.name?_outline, box_outline,
    envelope_outline, shape]

end Gml

namespace Predicate

theorem propertyName?_outline (n : Node) : propertyName? n.outline = propertyName? n := by
  unfold propertyName?
  rw [Node.child?_outline, Node.child?_outline]
  cases hproperty : n.child? "PropertyName" with
  | some child =>
      dsimp only [Option.map, Option.or]
      rw [Option.bind_some, Node.text?_outline (name?_of_child? hproperty) (by decide),
        Option.bind_some]
  | none =>
      cases hreference : n.child? "ValueReference" with
      | some child =>
          dsimp only [Option.map, Option.or]
          rw [Option.bind_some, Node.text?_outline (name?_of_child? hreference) (by decide),
            Option.bind_some]
      | none => rfl

theorem ignoresCase_outline (n : Node) : ignoresCase n.outline = ignoresCase n := by
  rw [ignoresCase, Node.attribute?_outline, ignoresCase]

theorem literalOf_outline (ignoreCase : Bool) {n : Node} (hname : n.name? = some "Literal") :
    literalOf ignoreCase n.outline = literalOf ignoreCase n := by
  rw [literalOf, Node.text?_outline hname (by decide), literalOf]

/-- A bound is read from the element of a boundary or from a literal in it. -/
theorem bound?_outline {name : String} {n : Node} (hname : n.name? = some name)
    (htext : isTextName name = true) : bound? n.outline = bound? n := by
  unfold bound?
  rw [Node.descendant?_outline]
  cases hliteral : n.descendant? "Literal" with
  | some value =>
      dsimp only [Option.map, Option.getD]
      rw [Node.text?_outline (name?_of_descendant? hliteral) (by decide)]
  | none =>
      dsimp only [Option.map, Option.getD]
      rw [Node.text?_outline hname htext]

/-- The bound in the boundary element of a name. -/
theorem bind_bound?_outline {name : String} (htext : isTextName name = true) (n : Node) :
    (n.outline.child? name).bind bound? = (n.child? name).bind bound? := by
  rw [Node.child?_outline]
  cases hchild : n.child? name with
  | none => rfl
  | some child => exact bound?_outline (name?_of_child? hchild) htext

theorem likeOptions?_outline (n : Node) : likeOptions? n.outline = likeOptions? n := by
  simp [likeOptions?, ignoresCase_outline]

theorem comparisonOf?_outline (op : ComparisonOperator) (n : Node) :
    comparisonOf? op n.outline = comparisonOf? op n := by
  unfold comparisonOf?
  rw [propertyName?_outline, bind_bound?_outline (by decide), bind_bound?_outline (by decide),
    Node.descendant?_outline, likeOptions?_outline, ignoresCase_outline]
  cases hliteral : n.descendant? "Literal" with
  | none => rfl
  | some value =>
      dsimp only [Option.map]
      simp only [Option.bind_eq_bind, Option.bind_some,
        literalOf_outline _ (name?_of_descendant? hliteral)]

theorem boxOf?_outline (n : Node) : boxOf? n.outline = boxOf? n := by
  unfold boxOf?
  rw [Node.child?_outline, Node.child?_outline, Node.child?_outline, ← Option.map_or]
  cases (n.child? "Box").or (n.child? "BoxType") with
  | some element =>
      dsimp only [Option.map]
      rw [Gml.box_outline]
  | none =>
      cases n.child? "Envelope" with
      | some element =>
          dsimp only [Option.map]
          rw [Gml.envelope_outline]
      | none => rfl

theorem distanceOf?_outline (n : Node) : distanceOf? n.outline = distanceOf? n := by
  unfold distanceOf?
  rw [Node.child?_outline]
  cases hdistance : n.child? "Distance" with
  | none => rfl
  | some element =>
      dsimp only [Option.map]
      rw [Node.text?_outline (name?_of_child? hdistance) (by decide), Node.attribute?_outline,
        Node.attribute?_outline]

theorem geometryOf?_outline (op : SpatialOperator) (n : Node) :
    geometryOf? op n.outline = geometryOf? op n := by
  have helement : geometryNames.findSome? n.outline.child? =
      (geometryNames.findSome? n.child?).map outline := by
    rw [List.map_findSome?]
    exact congrArg (geometryNames.findSome? ·) (funext fun name => Node.child?_outline name n)
  unfold geometryOf?
  rw [distanceOf?_outline, helement]
  cases geometryNames.findSome? n.child? with
  | none => rfl
  | some element =>
      dsimp only [Option.map, Option.bind_eq_bind, Option.bind_some]
      rw [Gml.shape_outline]

theorem spatialOf?_outline (op : SpatialOperator) (n : Node) :
    spatialOf? op n.outline = spatialOf? op n := by
  rw [spatialOf?, propertyName?_outline, boxOf?_outline, geometryOf?_outline, spatialOf?]

theorem featureId?_outline (n : Node) : featureId? n.outline = featureId? n := by
  simp [featureId?]

theorem featureIdsOf_outline (first : Node) (more : List Node) :
    featureIdsOf first.outline (more.map outline) = featureIdsOf first more := by
  have hids : ∀ ns : List Node, (ns.map outline).filterMap featureId? = ns.filterMap featureId? :=
    fun ns => by
      rw [List.filterMap_map]
      exact congrArg (ns.filterMap ·) (funext featureId?_outline)
  rw [featureIdsOf, ← List.map_cons, hids, Node.name?_outline, featureIdsOf]

theorem leafOf_outline (n : Node) : leafOf n.outline = leafOf n := by
  have hids : featureIdsOf n.outline [] = featureIdsOf n [] := featureIdsOf_outline n []
  simp only [leafOf, Node.name?_outline, spatialOf?_outline, comparisonOf?_outline, hids]

theorem ofNodes_append (ns ms : List Node) : ofNodes (ns ++ ms) = ofNodes ns ++ ofNodes ms := by
  induction ns with
  | nil => rfl
  | cons n ns ih =>
      rw [List.cons_append, ofNodes, ofNodes, ih]
      split <;> rfl

theorem ofNodes_keptText (name : String) (content : List Node) :
    ofNodes (Node.keptText name content) = [] := by
  unfold Node.keptText Node.leadingText
  repeat' split
  all_goals rfl

mutual

/-- An element gives the predicate of its outline. -/
theorem ofNode_outline (n : Node) : ofNode n.outline = ofNode n := by
  cases n with
  | element name attributes content =>
      have hleaf := leafOf_outline (.element name attributes content)
      rw [outline] at hleaf ⊢
      rw [ofNode, ofNode, hleaf, ofNodes_append, ofNodes_keptText, List.nil_append,
        ofNodes_outlines content]
  | _ => rfl

theorem ofNodes_outlines (ns : List Node) : ofNodes (Node.outlines ns) = ofNodes ns := by
  cases ns with
  | nil => rfl
  | cons n ns =>
      rw [Node.outlines, ofNodes]
      split
      · next hn =>
        rw [ofNodes, if_pos ((Node.isElement_outline n).trans hn), ofNode_outline n,
          ofNodes_outlines ns]
      · exact ofNodes_outlines ns

end

theorem isSupported_outline (n : Node) : isSupported n.outline = isSupported n := by
  rw [isSupported, Node.name?_outline, isSupported]

theorem isFeatureId_outline (n : Node) : isFeatureId n.outline = isFeatureId n := by
  rw [isFeatureId, Node.name?_outline, isFeatureId]

/-- A filter element gives the predicate of its outline. -/
theorem ofFilter_outline (filter : Node) : ofFilter filter.outline = ofFilter filter := by
  have hsupported : (fun n => !isSupported n) ∘ outline = fun n => !isSupported n :=
    funext fun n => congrArg (!·) (isSupported_outline n)
  unfold ofFilter
  rw [Node.elements_outline, List.dropWhile_map, hsupported]
  cases filter.elements.dropWhile fun n => !isSupported n with
  | nil =>
      dsimp only [List.map]
      rw [List.head?_map]
      cases filter.elements.head? with
      | none => rfl
      | some first =>
          rw [Option.map_some, Option.bind_some, Node.name?_outline, Option.bind_some]
  | cons first more =>
      dsimp only [List.map]
      rw [isFeatureId_outline, ofNode_outline, List.takeWhile_map,
        show isFeatureId ∘ outline = isFeatureId from funext isFeatureId_outline,
        featureIdsOf_outline]

end Predicate

end FilterEncoding
