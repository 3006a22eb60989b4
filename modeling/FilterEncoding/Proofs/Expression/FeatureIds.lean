import FilterEncoding.Proofs.Sql.Draft

/-!
# Expressions of feature ids

A list of feature ids is expressed as one comparison of the id attribute for each id.  The dialects
differ in how they write the attribute, the sign and a string.

* `Dialect.idTests?` — the comparisons for ids.
* `Dialect.compile_featureIds` — a list is expressed by them.
-/

namespace FilterEncoding.Dialect

/-- The id attribute as it is compared. -/
def idColumn (connection : Connection) (column : String) (quoted : Bool) : Dialect → String
  | sql =>
      if quoted && (connection = .ogr || connection = .postGis) then
        "CAST(" ++ quotedIdentifier column ++ " AS CHARACTER(255))"
      else quotedIdentifier column
  | mapserver | common => if quoted then "\"[" ++ column ++ "]\"" else "[" ++ column ++ "]"

def equalSign : Dialect → String
  | sql | mapserver => "="
  | common => "=="

/-- An id as a string. -/
def idLiteral (id : String) : Dialect → String
  | sql => "'" ++ doubled '\'' id ++ "'"
  | mapserver | common => "\"" ++ backslashed id ++ "\""

/-- The comparison with one id, which is written as a string or as a bare number. -/
def idTest (d : Dialect) (connection : Connection) (column : String) (quoted : Bool)
    (id : String) : String :=
  "(" ++ d.idColumn connection column quoted ++ " " ++ d.equalSign ++ " " ++
    (if quoted then d.idLiteral id else id) ++ ")"

/-- One comparison for each id.  All ids are written as bare numbers, or all as strings if one of
them is no number.  There are no comparisons without ids. -/
def idTests? (d : Dialect) (connection : Connection) (column : String) (ids : List String) :
    Option String :=
  if ids = [] then none
  else some (anyOf (ids.map (d.idTest connection column (ids.any fun id => !d.isNumber id))))

/-- The dialects with brackets differ in the sign only. -/
theorem idTest_bracketed {d : Dialect} (hd : d ≠ sql) (connection : Connection) (column : String)
    (quoted : Bool) (id : String) :
    d.idTest connection column quoted id =
      if quoted then
        "(\"[" ++ column ++ ("]\" " ++ d.equalSign ++ " \"") ++ backslashed id ++ "\")"
      else "([" ++ column ++ ("] " ++ d.equalSign ++ " ") ++ id ++ ")" := by
  apply String.toList_inj.1
  unfold idTest idColumn
  cases d with
  | sql => exact absurd rfl hd
  | _ =>
      cases quoted with
      | true => simp [idLiteral]
      | false => simp

section Layer

variable {s : LayerSchema} {column : String}

theorem sql_compareId {quoted : Bool} {id : String}
    (h : quoted = false → Number.isDecimal id = true) :
    Sql.compareId s.toLayer (s.toLayer.quoteIdentifier column) quoted id =
      sql.idTest s.connection column quoted id := by
  apply String.toList_inj.1
  unfold Sql.compareId idTest idColumn
  cases quoted with
  | false => simp [equalSign, Sql.doubled_of_isDecimal (h rfl)]
  | true =>
      by_cases hcast : s.connection = .ogr ∨ s.connection = .postGis
      · simp [equalSign, idLiteral, hcast]
      · simp [equalSign, idLiteral, hcast]

theorem mapserver_compareId (quoted : Bool) (id : String) :
    Mapserver.compareId s.toLayer column quoted id =
      mapserver.idTest s.connection column quoted id := by
  rw [idTest_bracketed (by decide)]
  rfl

theorem common_compareId (quoted : Bool) (id : String) :
    Common.compareId s.toLayer column quoted id =
      common.idTest s.connection column quoted id := by
  rw [idTest_bracketed (by decide)]
  rfl

/-- The test for a list of ids, where the comparison with one id is known.  An id that is not quoted
is a number. -/
theorem anyOf_compareId (hcolumn : s.idAttribute = some column) {d : Dialect}
    {compareId : String → Bool → String → String}
    (h : ∀ {quoted id}, (quoted = false → d.isNumber id = true) →
      compareId column quoted id = d.idTest s.connection column quoted id) (tokens : List String) :
    (match s.toLayer.idAttribute, d.idList? tokens with
      | some column, some (ids, quoted) => .ok (anyOf (ids.map (compareId column quoted)))
      | _, _ => .error .inexpressible : Except Obstacle String) =
      match d.idList? tokens with
      | some (ids, quoted) => .ok (anyOf (ids.map (d.idTest s.connection column quoted)))
      | none => .error .inexpressible := by
  rw [s.idAttribute_toLayer, hcolumn]
  cases hids : d.idList? tokens with
  | none => rfl
  | some list =>
      have hnumbers := (idList?_eq_some hids).2
      dsimp only
      rw [List.map_congr_left fun id hid => h fun hnot => hnumbers hnot id hid]

/-- The test for a list of ids, in each dialect. -/
theorem test_featureIds (hcolumn : s.idAttribute = some column) (d : Dialect)
    (engine : Geometry.Engine) (tokens : List String) :
    (d.language s.toLayer engine).test (.featureIds tokens) =
      match d.idList? tokens with
      | some (ids, quoted) => .ok (anyOf (ids.map (d.idTest s.connection column quoted)))
      | none => .error .inexpressible := by
  cases d with
  | mapserver => exact anyOf_compareId hcolumn (fun _ => mapserver_compareId _ _) tokens
  | common => exact anyOf_compareId hcolumn (fun _ => common_compareId _ _) tokens
  | sql => exact anyOf_compareId hcolumn sql_compareId tokens

/-- A list of feature ids is expressed by one comparison for each of its ids, and has no expression
without an id. -/
theorem compile_featureIds (hcolumn : s.idAttribute = some column) (d : Dialect)
    (engine : Geometry.Engine) (tokens : List String) :
    d.compile s.toLayer engine (.featureIds tokens) =
      .ok (d.idTests? s.connection column (FeatureId.bareIds tokens)) := by
  rw [compile, Language.compile_of_test? _ rfl, test_featureIds hcolumn, idList?, idTests?]
  cases FeatureId.bareIds tokens with
  | nil => rfl
  | cons id ids => rfl

end Layer

end FilterEncoding.Dialect
