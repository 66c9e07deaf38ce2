import SandboxProfile.Proofs.FieldOrder
import SandboxProfile.Proofs.WireDecoding
import SandboxProfile.Tree.Decoding
import SandboxProfile.Tree.Encoding

/-!
# Trees encoded and decoded

Every tree is read back from its encoding as it was, with all ranges, whatever it holds: no variant
is mistaken for another one, and it makes no difference in which order the fields of its objects
stand (`Profile.ofJson_arranged`).
-/

namespace SandboxProfile

open Json (Arranges Takes Decodes bind_of_ok asCount_ofNat asInteger_toInt)

/-! ### Readers of records -/

namespace Expr

theorem ofFields_eq_takeFields (d : Fields) (fields : List (String × Json)) :
    ofFields d fields = Json.takeFields take d fields :=
  Json.eq_takeFields (fun _ => rfl) (fun _ _ _ _ => rfl) d fields

/-- An expression is read as any record is. -/
theorem ofJson_object (fields : List (String × Json)) :
    ofJson (.object fields) = Json.asRecord shape take ⟨none, none⟩ Fields.complete
      (.object fields) := by
  rw [ofJson, ofFields_eq_takeFields]
  rfl

end Expr

namespace Filter

theorem ofJsonAll_eq_mapM (xs : List Json) : ofJsonAll xs = xs.mapM ofJson := by
  induction xs with
  | nil => rfl
  | cons x xs ih => rw [ofJsonAll, ih, List.mapM_cons]

/-- Takes in a field of a compound filter. -/
def CompoundFields.take (d : CompoundFields) (key : String) (x : Json) : Decodes CompoundFields :=
  match key with
  | "kind" => do pure ⟨some (← CompoundKind.ofJson x), d.filters, d.range⟩
  | "filters" => do pure ⟨d.kind, some (← x.asListOf ofJson), d.range⟩
  | "range" => do pure ⟨d.kind, d.filters, some (← Range.ofJson x)⟩
  | _ => pure d

theorem compoundOfFields_eq_takeFields (d : CompoundFields) (fields : List (String × Json)) :
    compoundOfFields d fields = Json.takeFields CompoundFields.take d fields := by
  refine Json.eq_takeFields (fun _ => rfl) (fun d key x fields => ?_) d fields
  by_cases hfilters : key = "filters"
  · subst hfilters
    cases x with
    | array items =>
      change (ofJsonAll items >>= fun fs => compoundOfFields ⟨d.kind, some fs, d.range⟩ fields) =
        (List.mapM ofJson items >>= _) >>= _
      rw [ofJsonAll_eq_mapM, bind_assoc]
      rfl
    | _ => rfl
  by_cases hkind : key = "kind"
  · subst hkind
    rw [CompoundFields.take, bind_assoc]
    rfl
  by_cases hrange : key = "range"
  · subst hrange
    rw [CompoundFields.take, bind_assoc]
    rfl
  · rw [compoundOfFields, CompoundFields.take]
    · rfl
    all_goals simp [hfilters, hkind, hrange]

/-- Takes in a field of a negation. -/
def NegationFields.take (d : NegationFields) (key : String) (x : Json) : Decodes NegationFields :=
  match key with
  | "filter" => do pure ⟨some (← ofJson x), d.range⟩
  | "range" => do pure ⟨d.filter, some (← Range.ofJson x)⟩
  | _ => pure d

theorem negationOfFields_eq_takeFields (d : NegationFields) (fields : List (String × Json)) :
    negationOfFields d fields = Json.takeFields NegationFields.take d fields := by
  refine Json.eq_takeFields (fun _ => rfl) (fun d key x fields => ?_) d fields
  by_cases hfilter : key = "filter"
  · subst hfilter
    rw [NegationFields.take, bind_assoc]
    rfl
  by_cases hrange : key = "range"
  · subst hrange
    rw [NegationFields.take, bind_assoc]
    rfl
  · rw [negationOfFields, NegationFields.take]
    · rfl
    all_goals simp [hfilter, hrange]

end Filter

section Arranged

variable {arrange : List (String × Json) → List (String × Json)}

/-! ### Places -/

theorem Position.ofJson_arranged (h : Arranges arrange) (p : Position) :
    ofJson (p.toJson.arranged arrange) = .ok p := by
  have htakes : Takes Fields.take
      [("line", .integer p.line), ("column", .integer p.column), ("offset", .integer p.offset)]
      [fun d => ⟨some p.line, d.column, d.offset⟩, fun d => ⟨d.line, some p.column, d.offset⟩,
        fun d => ⟨d.line, d.column, some p.offset⟩] := by
    constructor
    · exact .cons (fun d => bind_of_ok (asCount_ofNat p.line) _) <|
        .cons (fun d => bind_of_ok (asCount_ofNat p.column) _) <|
        .cons (fun d => bind_of_ok (asCount_ofNat p.offset) _) .nil
    · simp
  exact Json.asRecord_arranged htakes h (by decide : ["line", "column", "offset"].Nodup) rfl

theorem Range.ofJson_arranged (h : Arranges arrange) (r : Range) :
    ofJson (r.toJson.arranged arrange) = .ok r := by
  have htakes : Takes Fields.take
      [("start", r.start.toJson.arranged arrange), ("end", r.stop.toJson.arranged arrange)]
      [fun d => ⟨some r.start, d.stop⟩, fun d => ⟨d.start, some r.stop⟩] := by
    constructor
    · exact .cons (fun d => bind_of_ok (Position.ofJson_arranged h r.start) _) <|
        .cons (fun d => bind_of_ok (Position.ofJson_arranged h r.stop) _) .nil
    · simp
  exact Json.asRecord_arranged htakes h (by decide : ["start", "end"].Nodup) rfl

/-! ### Expressions -/

namespace Expr

/-- An expression is read from its variant and its range. -/
theorem ofJson_node (h : Arranges arrange) {variant : Range → Expr} {name : String} {content : Json}
    (hvariant : ∀ d, take d "kind" (.object [(name, content.arranged arrange)]) =
      .ok ⟨some variant, d.range⟩) (r : Range) :
    ofJson ((node name content r).arranged arrange) = .ok (variant r) := by
  have htakes : Takes take
      [("kind", .object [(name, content.arranged arrange)]), ("range", r.toJson.arranged arrange)]
      [fun d => ⟨some variant, d.range⟩, fun d => ⟨d.variant, some r⟩] := by
    constructor
    · exact .cons hvariant <| .cons (fun d => bind_of_ok (Range.ofJson_arranged h r) _) .nil
    · simp
  have hnode : (node name content r).arranged arrange =
      .object (arrange [("kind", .object [(name, content.arranged arrange)]),
        ("range", r.toJson.arranged arrange)]) := by
    rw [← h.single (name, content.arranged arrange)]
    rfl
  rw [hnode, ofJson_object]
  exact Json.asRecord_arranged htakes h (by decide : ["kind", "range"].Nodup) rfl

mutual

theorem ofJson_arranged (h : Arranges arrange) : (x : Expr) →
    ofJson (x.toJson.arranged arrange) = .ok x
  | integer n r => by
    refine ofJson_node h (fun d => ?_) r
    change (Except.map integer (Json.asInteger (.integer n.toInt)) >>= _) = _
    rw [asInteger_toInt]
    rfl
  | string s r => ofJson_node h (fun _ => rfl) r
  | rawString s r => ofJson_node h (fun _ => rfl) r
  | boolean b r => ofJson_node h (fun _ => rfl) r
  | symbol name r => ofJson_node h (fun _ => rfl) r
  | list items r => ofJson_node h (fun d => bind_of_ok (ofJsonAll_arranged h items) _) r
  | quoted inner r => ofJson_node h (fun d => bind_of_ok (ofJson_arranged h inner) _) r

theorem ofJsonAll_arranged (h : Arranges arrange) : (xs : List Expr) →
    ofJsonAll (Json.arrangedItems arrange (toJsonAll xs)) = .ok xs
  | [] => rfl
  | x :: xs => by
    rw [toJsonAll, Json.arrangedItems, ofJsonAll, ofJson_arranged h x, ofJsonAll_arranged h xs]
    rfl

end

end Expr

/-! ### Filters -/

theorem CompoundKind.ofJson_text (k : CompoundKind) : ofJson (.string k.text) = .ok k := by
  cases k <;> rfl

namespace Filter

/-- A variant stands over its content, whatever order fields are put in. -/
theorem arranged_variant (h : Arranges arrange) (name : String) (content : Json) :
    (Json.object [(name, content)]).arranged arrange =
      .object [(name, content.arranged arrange)] :=
  congrArg Json.object (h.single (name, content.arranged arrange))

theorem ofJson_simple (h : Arranges arrange) (type : String) (typeRange : Range) (value : Expr)
    (range : Range) :
    ofJson ((simple type typeRange value range).toJson.arranged arrange) =
      .ok (simple type typeRange value range) := by
  have htakes : Takes SimpleFields.take
      [("filter_type", .string type), ("type_range", typeRange.toJson.arranged arrange),
        ("value", value.toJson.arranged arrange), ("range", range.toJson.arranged arrange)]
      [fun d => ⟨some type, d.typeRange, d.value, d.range⟩,
        fun d => ⟨d.type, some typeRange, d.value, d.range⟩,
        fun d => ⟨d.type, d.typeRange, some value, d.range⟩,
        fun d => ⟨d.type, d.typeRange, d.value, some range⟩] := by
    constructor
    · exact .cons (fun _ => rfl) <|
        .cons (fun d => bind_of_ok (Range.ofJson_arranged h typeRange) _) <|
        .cons (fun d => bind_of_ok (Expr.ofJson_arranged h value) _) <|
        .cons (fun d => bind_of_ok (Range.ofJson_arranged h range) _) .nil
    · simp
  have hread := htakes.of_arranges h
    (by decide : ["filter_type", "type_range", "value", "range"].Nodup) ⟨none, none, none, none⟩
  rw [toJson, arranged_variant h]
  exact bind_of_ok hread SimpleFields.complete

theorem ofJson_compound (h : Arranges arrange) (kind : CompoundKind) {filters : List Filter}
    (range : Range)
    (hfilters : ofJsonAll (Json.arrangedItems arrange (toJsonAll filters)) = .ok filters) :
    ofJson ((compound kind filters range).toJson.arranged arrange) =
      .ok (compound kind filters range) := by
  have hlist : (Json.array (Json.arrangedItems arrange (toJsonAll filters))).asListOf ofJson =
      .ok filters := by
    rw [← hfilters, ofJsonAll_eq_mapM]
    rfl
  have htakes : Takes CompoundFields.take
      [("kind", .string kind.text),
        ("filters", .array (Json.arrangedItems arrange (toJsonAll filters))),
        ("range", range.toJson.arranged arrange)]
      [fun d => ⟨some kind, d.filters, d.range⟩, fun d => ⟨d.kind, some filters, d.range⟩,
        fun d => ⟨d.kind, d.filters, some range⟩] := by
    constructor
    · exact .cons (fun d => bind_of_ok kind.ofJson_text _) <|
        .cons (fun d => bind_of_ok hlist _) <|
        .cons (fun d => bind_of_ok (Range.ofJson_arranged h range) _) .nil
    · simp
  have hread := htakes.of_arranges h (by decide : ["kind", "filters", "range"].Nodup)
    ⟨none, none, none⟩
  rw [← compoundOfFields_eq_takeFields] at hread
  rw [toJson, arranged_variant h]
  exact bind_of_ok hread CompoundFields.complete

theorem ofJson_negation (h : Arranges arrange) {filter : Filter} (range : Range)
    (hfilter : ofJson (filter.toJson.arranged arrange) = .ok filter) :
    ofJson ((negation filter range).toJson.arranged arrange) = .ok (negation filter range) := by
  have htakes : Takes NegationFields.take
      [("filter", filter.toJson.arranged arrange), ("range", range.toJson.arranged arrange)]
      [fun d => ⟨some filter, d.range⟩, fun d => ⟨d.filter, some range⟩] := by
    constructor
    · exact .cons (fun d => bind_of_ok hfilter _) <|
        .cons (fun d => bind_of_ok (Range.ofJson_arranged h range) _) .nil
    · simp
  have hread := htakes.of_arranges h (by decide : ["filter", "range"].Nodup) ⟨none, none⟩
  rw [← negationOfFields_eq_takeFields] at hread
  rw [toJson, arranged_variant h]
  exact bind_of_ok hread NegationFields.complete

theorem ofJson_expression (h : Arranges arrange) (value : Expr) :
    ofJson ((expression value).toJson.arranged arrange) = .ok (expression value) := by
  rw [toJson, arranged_variant h]
  change (Expr.ofJson (value.toJson.arranged arrange) >>= _) = _
  rw [Expr.ofJson_arranged h value]
  rfl

mutual

theorem ofJson_arranged (h : Arranges arrange) : (f : Filter) →
    ofJson (f.toJson.arranged arrange) = .ok f
  | simple type typeRange value range => ofJson_simple h type typeRange value range
  | compound kind filters range => ofJson_compound h kind range (ofJsonAll_arranged h filters)
  | negation filter range => ofJson_negation h range (ofJson_arranged h filter)
  | expression value => ofJson_expression h value

theorem ofJsonAll_arranged (h : Arranges arrange) : (fs : List Filter) →
    ofJsonAll (Json.arrangedItems arrange (toJsonAll fs)) = .ok fs
  | [] => rfl
  | f :: fs => by
    rw [toJsonAll, Json.arrangedItems, ofJsonAll, ofJson_arranged h f, ofJsonAll_arranged h fs]
    rfl

end

end Filter

/-! ### Declarations -/

theorem Version.ofJson_arranged (h : Arranges arrange) (v : Version) :
    ofJson (v.toJson.arranged arrange) = .ok v := by
  have htakes : Takes Fields.take
      [("version", .integer v.number.toInt), ("range", v.range.toJson.arranged arrange)]
      [fun d => ⟨some v.number, d.range⟩, fun d => ⟨d.number, some v.range⟩] := by
    constructor
    · exact .cons (fun d => bind_of_ok (asInteger_toInt v.number) _) <|
        .cons (fun d => bind_of_ok (Range.ofJson_arranged h v.range) _) .nil
    · simp
  exact Json.asRecord_arranged htakes h (by decide : ["version", "range"].Nodup) rfl

theorem DebugMode.ofJson_arranged (h : Arranges arrange) (m : DebugMode) :
    ofJson (m.toJson.arranged arrange) = .ok m := by
  have htakes : Takes Fields.take
      [("action", .string m.action.text), ("range", m.range.toJson.arranged arrange)]
      [fun d => ⟨some m.action, d.range⟩, fun d => ⟨d.action, some m.range⟩] := by
    constructor
    · exact .cons (fun d => bind_of_ok (Wire.action_ofJson_text m.action) _) <|
        .cons (fun d => bind_of_ok (Range.ofJson_arranged h m.range) _) .nil
    · simp
  exact Json.asRecord_arranged htakes h (by decide : ["action", "range"].Nodup) rfl

theorem Import.ofJson_arranged (h : Arranges arrange) (i : Import) :
    ofJson (i.toJson.arranged arrange) = .ok i := by
  have htakes : Takes Fields.take
      [("path", .string i.path), ("path_range", i.pathRange.toJson.arranged arrange),
        ("range", i.range.toJson.arranged arrange)]
      [fun d => ⟨some i.path, d.pathRange, d.range⟩, fun d => ⟨d.path, some i.pathRange, d.range⟩,
        fun d => ⟨d.path, d.pathRange, some i.range⟩] := by
    constructor
    · exact .cons (fun _ => rfl) <|
        .cons (fun d => bind_of_ok (Range.ofJson_arranged h i.pathRange) _) <|
        .cons (fun d => bind_of_ok (Range.ofJson_arranged h i.range) _) .nil
    · simp
  exact Json.asRecord_arranged htakes h (by decide : ["path", "path_range", "range"].Nodup) rfl

theorem Definition.ofJson_arranged (h : Arranges arrange) (d : Definition) :
    ofJson (d.toJson.arranged arrange) = .ok d := by
  have htakes : Takes Fields.take
      [("name", .string d.name), ("name_range", d.nameRange.toJson.arranged arrange),
        ("value", d.value.toJson.arranged arrange), ("range", d.range.toJson.arranged arrange)]
      [fun s => ⟨some d.name, s.nameRange, s.value, s.range⟩,
        fun s => ⟨s.name, some d.nameRange, s.value, s.range⟩,
        fun s => ⟨s.name, s.nameRange, some d.value, s.range⟩,
        fun s => ⟨s.name, s.nameRange, s.value, some d.range⟩] := by
    constructor
    · exact .cons (fun _ => rfl) <|
        .cons (fun s => bind_of_ok (Range.ofJson_arranged h d.nameRange) _) <|
        .cons (fun s => bind_of_ok (Expr.ofJson_arranged h d.value) _) <|
        .cons (fun s => bind_of_ok (Range.ofJson_arranged h d.range) _) .nil
    · simp
  exact Json.asRecord_arranged htakes h
    (by decide : ["name", "name_range", "value", "range"].Nodup) rfl

theorem Operation.ofJson_arranged (h : Arranges arrange) (o : Operation) :
    ofJson (o.toJson.arranged arrange) = .ok o := by
  have htakes : Takes Fields.take
      [("name", .string o.name), ("range", o.range.toJson.arranged arrange)]
      [fun d => ⟨some o.name, d.range⟩, fun d => ⟨d.name, some o.range⟩] := by
    constructor
    · exact .cons (fun _ => rfl) <|
        .cons (fun d => bind_of_ok (Range.ofJson_arranged h o.range) _) .nil
    · simp
  exact Json.asRecord_arranged htakes h (by decide : ["name", "range"].Nodup) rfl

theorem Rule.ofJson_arranged (h : Arranges arrange) (r : Rule) :
    ofJson (r.toJson.arranged arrange) = .ok r := by
  have hoperations := Json.asListOf_arranged fun o (_ : o ∈ r.operations) => o.ofJson_arranged h
  have hfilters := Json.asListOf_arranged fun f (_ : f ∈ r.filters) => f.ofJson_arranged h
  have htakes : Takes Fields.take
      [("action", .string r.action.text),
        ("operations", (Json.array (r.operations.map Operation.toJson)).arranged arrange),
        ("filters", (Json.array (r.filters.map Filter.toJson)).arranged arrange),
        ("range", r.range.toJson.arranged arrange)]
      [fun d => ⟨some r.action, d.operations, d.filters, d.range⟩,
        fun d => ⟨d.action, some r.operations, d.filters, d.range⟩,
        fun d => ⟨d.action, d.operations, some r.filters, d.range⟩,
        fun d => ⟨d.action, d.operations, d.filters, some r.range⟩] := by
    constructor
    · exact .cons (fun d => bind_of_ok (Wire.action_ofJson_text r.action) _) <|
        .cons (fun d => bind_of_ok hoperations _) <|
        .cons (fun d => bind_of_ok hfilters _) <|
        .cons (fun d => bind_of_ok (Range.ofJson_arranged h r.range) _) .nil
    · simp
  exact Json.asRecord_arranged htakes h
    (by decide : ["action", "operations", "filters", "range"].Nodup) rfl

/-! ### Profiles -/

namespace Profile

/-- What may be absent is read back from null or from what is there. -/
theorem asOption_arranged {α : Type} {decode : Json → Decodes α} {encode : α → Json}
    (hdecode : ∀ x, decode ((encode x).arranged arrange) = .ok x)
    (hobject : ∀ x, ∃ fields, encode x = .object fields) (x : Option α) :
    (((x.map encode).getD .null).arranged arrange).asOption decode = .ok x := by
  cases x with
  | none => rfl
  | some x =>
    obtain ⟨fields, hfields⟩ := hobject x
    have hread := hdecode x
    rw [Option.map_some, Option.getD_some]
    rw [hfields] at hread ⊢
    change Except.map some (decode _) = _
    rw [hread]
    rfl

/-- A tree is read back from its encoding with the fields of objects in any order. -/
theorem ofJson_arranged (h : Arranges arrange) (p : Profile) :
    ofJson (p.toJson.arranged arrange) = .ok p := by
  have hversion := asOption_arranged (Version.ofJson_arranged h) (fun _ => ⟨_, rfl⟩) p.version
  have hdebug := asOption_arranged (DebugMode.ofJson_arranged h) (fun _ => ⟨_, rfl⟩) p.debug
  have himports := Json.asListOf_arranged fun i (_ : i ∈ p.imports) => i.ofJson_arranged h
  have hdefinitions := Json.asListOf_arranged fun d (_ : d ∈ p.definitions) => d.ofJson_arranged h
  have hrules := Json.asListOf_arranged fun r (_ : r ∈ p.rules) => r.ofJson_arranged h
  have htakes : Takes Fields.take
      [("version", ((p.version.map Version.toJson).getD .null).arranged arrange),
        ("debug", ((p.debug.map DebugMode.toJson).getD .null).arranged arrange),
        ("imports", (Json.array (p.imports.map Import.toJson)).arranged arrange),
        ("definitions", (Json.array (p.definitions.map Definition.toJson)).arranged arrange),
        ("rules", (Json.array (p.rules.map Rule.toJson)).arranged arrange),
        ("range", p.range.toJson.arranged arrange)]
      [fun d => ⟨p.version, d.debug, d.imports, d.definitions, d.rules, d.range⟩,
        fun d => ⟨d.version, p.debug, d.imports, d.definitions, d.rules, d.range⟩,
        fun d => ⟨d.version, d.debug, some p.imports, d.definitions, d.rules, d.range⟩,
        fun d => ⟨d.version, d.debug, d.imports, some p.definitions, d.rules, d.range⟩,
        fun d => ⟨d.version, d.debug, d.imports, d.definitions, some p.rules, d.range⟩,
        fun d => ⟨d.version, d.debug, d.imports, d.definitions, d.rules, some p.range⟩] := by
    constructor
    · exact .cons (fun d => bind_of_ok hversion _) <|
        .cons (fun d => bind_of_ok hdebug _) <|
        .cons (fun d => bind_of_ok himports _) <|
        .cons (fun d => bind_of_ok hdefinitions _) <|
        .cons (fun d => bind_of_ok hrules _) <|
        .cons (fun d => bind_of_ok (Range.ofJson_arranged h p.range) _) .nil
    · simp
  exact Json.asRecord_arranged htakes h
    (by decide : ["version", "debug", "imports", "definitions", "rules", "range"].Nodup) rfl

/-- Encoding loses nothing of a tree: it is read back equal, with its ranges, from a value that has
the fields of objects in the order of their keys, and from one that has them as they were
declared. -/
theorem ofJson_encoded (p : Profile) :
    ofJson p.toJson.sorted = .ok p ∧ ofJson p.toJson = .ok p := by
  have hsorted := ofJson_arranged Json.arranges_sortFields p
  have hdeclared := ofJson_arranged Json.arranges_id p
  rw [← Json.sorted_eq_arranged] at hsorted
  rw [Json.arranged_id] at hdeclared
  exact ⟨hsorted, hdeclared⟩

end Profile

end Arranged

end SandboxProfile
