import SandboxProfile.Proofs.JsonFields
import SandboxProfile.Proofs.Printable
import SandboxProfile.Wire.Decoding

/-!
# Reading back encoded profiles

Reading an encoded profile gives the profile again, but for the symbols in its values: a symbol that
begins with the mark of a string is read as a string. Whether anything is left out or empty, and
what the strings hold, makes no difference.
-/

namespace SandboxProfile.Wire

/-! ### Expressions -/

theorem toList_marked (s : String) : (marked s).toList = '"' :: (s.toList ++ ['"']) := by
  simp [marked]

theorem Node.ofText_marked (s : String) : Node.ofText (marked s) = .string s := by
  simp [Node.ofText, toList_marked]

theorem Node.ofText_eq_symbol {name : String} :
    Node.ofText name = .symbol name ↔ name.toList.head? ≠ some '"' := by
  unfold Node.ofText
  split
  next h => simp [h]
  next h =>
    refine ⟨fun _ hhead => ?_, fun _ => rfl⟩
    obtain ⟨cs, hcs⟩ := List.head?_eq_some_iff.mp hhead
    exact h cs hcs

namespace Node

mutual

/-- What an expression is read as after it was encoded. -/
def reread : Node → Node
  | symbol name => ofText name
  | list items => list (rereadAll items)
  | x => x

def rereadAll : List Node → List Node
  | [] => []
  | x :: xs => x.reread :: rereadAll xs

end

/-- No symbol begins with the mark of a string. -/
def Unmarked (x : Node) : Prop :=
  x.Every fun y => ∀ name, y = symbol name → name.toList.head? ≠ some '"'

mutual

theorem reread_eq_iff : (x : Node) → (x.reread = x ↔ x.Unmarked)
  | integer _ | string _ | boolean _ => iff_of_true rfl nofun
  | symbol name => by
    rw [reread, ofText_eq_symbol]
    exact ⟨fun h _ heq => by cases heq; exact h, fun h => h name rfl⟩
  | list items => by
    rw [reread, list.injEq, rereadAll_eq_iff items]
    exact ⟨fun h => ⟨nofun, h⟩, And.right⟩

theorem rereadAll_eq_iff : (xs : List Node) →
    (rereadAll xs = xs ↔
      EveryAll (fun y => ∀ name, y = symbol name → name.toList.head? ≠ some '"') xs)
  | [] => iff_of_true rfl trivial
  | x :: xs => by
    rw [rereadAll, List.cons.injEq, reread_eq_iff x, rereadAll_eq_iff xs]
    rfl

end

mutual

theorem ofJson_toJson : (x : Node) → ofJson x.toJson.sorted = .ok x.reread
  | integer n => by
    change (match Integer.ofInt? n.toInt with | some i => _ | none => _) = _
    rw [Integer.ofInt?_toInt]
    rfl
  | string s => congrArg Except.ok (ofText_marked s)
  | boolean _ | symbol _ => rfl
  | list items => by
    change list <$> ofJsonAll (Json.sortedItems (toJsonAll items)) = _
    rw [ofJsonAll_toJsonAll items]
    rfl

theorem ofJsonAll_toJsonAll : (xs : List Node) →
    ofJsonAll (Json.sortedItems (toJsonAll xs)) = .ok (rereadAll xs)
  | [] => rfl
  | x :: xs => by
    rw [toJsonAll, Json.sortedItems, ofJsonAll, ofJson_toJson x, ofJsonAll_toJsonAll xs]
    rfl

end

theorem asOption_toJson (x : Node) :
    x.toJson.sorted.asOption ofJson = .ok (some x.reread) := by
  have h := ofJson_toJson x
  cases x <;> exact congrArg (Except.map some) h

end Node

/-! ### Filters -/

namespace Filter

mutual

def reread : Filter → Filter
  | ⟨type, value, none⟩ => ⟨type, value.map Node.reread, none⟩
  | ⟨type, value, some filters⟩ => ⟨type, value.map Node.reread, some (rereadAll filters)⟩

def rereadAll : List Filter → List Filter
  | [] => []
  | f :: fs => f.reread :: rereadAll fs

end

/-- No symbol in the value begins with the mark of a string. -/
def Unmarked (f : Filter) : Prop := ∀ value, f.value = some value → value.Unmarked

theorem map_reread_eq_iff {value : Option Node} :
    value.map Node.reread = value ↔ ∀ x, value = some x → x.Unmarked := by
  cases value with
  | none => exact iff_of_true rfl nofun
  | some x =>
    rw [Option.map_some, Option.some.injEq, Node.reread_eq_iff]
    exact ⟨fun h _ heq => by cases heq; exact h, fun h => h x rfl⟩

mutual

theorem reread_eq_iff : (f : Filter) → (f.reread = f ↔ f.Every Unmarked)
  | ⟨type, value, none⟩ => by
    rw [reread, Filter.mk.injEq, map_reread_eq_iff]
    exact ⟨fun h => h.2.1, fun h => ⟨rfl, h, rfl⟩⟩
  | ⟨type, value, some filters⟩ => by
    rw [reread, Filter.mk.injEq, map_reread_eq_iff, Option.some.injEq, rereadAll_eq_iff filters]
    exact ⟨And.right, fun h => ⟨rfl, h⟩⟩

theorem rereadAll_eq_iff : (fs : List Filter) → (rereadAll fs = fs ↔ EveryAll Unmarked fs)
  | [] => iff_of_true rfl trivial
  | f :: fs => by
    rw [rereadAll, List.cons.injEq, reread_eq_iff f, rereadAll_eq_iff fs]
    rfl

end

theorem sortFields_filter (type : Json) {value filters : List (String × Json)}
    (hvalue : Json.Optional "value" value) (hfilters : Json.Optional "filters" filters) :
    Json.sortFields (("type", type) :: (value ++ filters)) =
      filters ++ ("type", type) :: value := by
  have h₁ := Json.insertFields_between [("type", type)] [] hvalue
    (List.forall_mem_singleton.mpr (by decide : "type" < "value")) nofun
  have h₂ := Json.insertFields_between [] (("type", type) :: value) hfilters nofun
    (List.forall_mem_cons.mpr
      ⟨(by decide : "filters" < "type"), hvalue.above (by decide)⟩)
  rw [List.append_nil, List.append_nil] at h₁
  change Json.insertFields [("type", type)] (value ++ filters) = _
  rw [Json.insertFields_append, h₁]
  exact h₂

theorem ofFields_eq_takeFields (d : Fields) (fields : List (String × Json)) :
    ofFields d fields = Json.takeFields take d fields :=
  Json.eq_takeFields (fun _ => rfl) (fun _ _ _ _ => rfl) d fields

/-- A filter is read from its fields in the order of their names. -/
theorem ofJson_fields (type : String) (value : Option Node) {filters : List (String × Json)}
    {parts : Option (List Filter)} (hfilters : Json.Optional "filters" filters)
    (hparts : Json.takeFields take ⟨none, none, none⟩ filters = .ok ⟨none, none, parts⟩) :
    ofJson (.object (Json.sortFields (("type", .string type) ::
        (Json.sortedFields (Json.fieldOf "value" Node.toJson value) ++ filters)))) =
      .ok ⟨type, value.map Node.reread, parts⟩ := by
  have hvalue : Json.takeFields take ⟨some type, none, parts⟩
      (Json.sortedFields (Json.fieldOf "value" Node.toJson value)) =
        .ok ⟨some type, value.map Node.reread, parts⟩ := by
    refine Json.takeFields_fieldOf ?_ ?_
    · rintro rfl
      rfl
    · rintro x rfl
      rw [take, Node.asOption_toJson]
      rfl
  have htype : take ⟨none, none, parts⟩ "type" (.string type) = .ok ⟨some type, none, parts⟩ := rfl
  rw [sortFields_filter _ (Json.optional_fieldOf "value" Node.toJson value) hfilters, ofJson,
    ofFields_eq_takeFields, Json.takeFields_append hparts, ← List.singleton_append,
    Json.takeFields_append (Json.takeFields_single htype), hvalue]
  rfl

mutual

theorem ofJson_toJson : (f : Filter) → ofJson f.toJson.sorted = .ok f.reread
  | ⟨type, value, none⟩ => by
    have h := ofJson_fields type value (show Json.Optional "filters" [] from .inl rfl) rfl
    rwa [List.append_nil] at h
  | ⟨type, value, some filters⟩ => by
    have hfilters : Json.takeFields take ⟨none, none, none⟩
        [("filters", .array (Json.sortedItems (toJsonAll filters)))] =
          .ok ⟨none, none, some (rereadAll filters)⟩ := by
      refine Json.takeFields_single ?_
      change (ofJsonAll (Json.sortedItems (toJsonAll filters)) >>= _) = _
      rw [ofJsonAll_toJsonAll filters]
      rfl
    have h := ofJson_fields type value (.inr ⟨_, rfl⟩) hfilters
    rw [toJson, Json.sorted, Json.sortedFields, Json.sortedFields_append]
    exact h

theorem ofJsonAll_toJsonAll : (fs : List Filter) →
    ofJsonAll (Json.sortedItems (toJsonAll fs)) = .ok (rereadAll fs)
  | [] => rfl
  | f :: fs => by
    rw [toJsonAll, Json.sortedItems, ofJsonAll, ofJson_toJson f, ofJsonAll_toJsonAll fs]
    rfl

end

end Filter

theorem Filter.rereadAll_eq_map (fs : List Filter) : rereadAll fs = fs.map reread := by
  induction fs with
  | nil => rfl
  | cons f fs ih => rw [rereadAll, ih, List.map_cons]

/-! ### Declarations -/

namespace Definition

def reread (d : Definition) : Definition := ⟨d.name, d.value.reread⟩

theorem sortFields_definition (name value : Json) :
    Json.sortFields [("name", name), ("value", value)] = [("name", name), ("value", value)] :=
  Json.insertFields_between [("name", name)] [] (.inr ⟨value, rfl⟩)
    (List.forall_mem_singleton.mpr (by decide : "name" < "value")) nofun

/-- The fields of a definition in the order of their names. -/
theorem sorted_toJson (d : Definition) : d.toJson.sorted =
    .object [("name", .string d.name), ("value", d.value.toJson.sorted)] :=
  congrArg Json.object (sortFields_definition _ _)

theorem ofJson_toJson (d : Definition) : ofJson d.toJson.sorted = .ok d.reread := by
  have hname : Fields.take ⟨none, none⟩ "name" (.string d.name) = .ok ⟨some d.name, none⟩ := rfl
  have hvalue : Fields.take ⟨some d.name, none⟩ "value" d.value.toJson.sorted =
      .ok ⟨some d.name, some d.value.reread⟩ := by
    change (Node.ofJson d.value.toJson.sorted >>= _) = _
    rw [Node.ofJson_toJson]
    rfl
  rw [sorted_toJson, ofJson, Json.asRecord, ← List.singleton_append,
    Json.takeFields_append (Json.takeFields_single hname), Json.takeFields_single hvalue]
  rfl

theorem reread_eq_iff (d : Definition) : d.reread = d ↔ d.value.Unmarked := by
  obtain ⟨name, value⟩ := d
  rw [reread, Definition.mk.injEq, Node.reread_eq_iff]
  exact ⟨And.right, fun h => ⟨rfl, h⟩⟩

end Definition

theorem action_ofJson_text (a : Action) : Action.ofJson (.string a.text) = .ok a := by
  cases a <;> rfl

theorem asListOf_strings (xs : List String) :
    (Json.array (xs.map .string)).sorted.asListOf Json.asString = .ok xs := by
  have h : (Json.array (xs.map .string)).sorted.asListOf Json.asString = .ok (xs.map id) :=
    Json.asListOf_map fun _ _ => rfl
  rwa [List.map_id] at h

namespace Rule

def reread (r : Rule) : Rule := ⟨r.action, r.operations, r.filters.map Filter.reread⟩

theorem sortFields_rule (action operations : Json) {filters : List (String × Json)}
    (hfilters : Json.Optional "filters" filters) :
    Json.sortFields (("action", action) :: ("operations", operations) :: filters) =
      ("action", action) :: (filters ++ [("operations", operations)]) := by
  have h₁ := Json.insertFields_between [("action", action)] []
    (show Json.Optional "operations" [("operations", operations)] from .inr ⟨_, rfl⟩)
    (List.forall_mem_singleton.mpr (by decide : "action" < "operations")) nofun
  have h₂ := Json.insertFields_between [("action", action)] [("operations", operations)] hfilters
    (List.forall_mem_singleton.mpr (by decide : "action" < "filters"))
    (List.forall_mem_singleton.mpr (by decide : "filters" < "operations"))
  exact (congrArg (Json.insertFields · filters) h₁).trans h₂

/-- The fields of a rule in the order of their names. -/
theorem sorted_toJson (r : Rule) : r.toJson.sorted =
    .object (("action", .string r.action.text) ::
      (Json.sortedFields (Json.fieldOfList "filters" Filter.toJson r.filters) ++
        [("operations", (Json.array (r.operations.map .string)).sorted)])) :=
  congrArg Json.object (sortFields_rule _ _ (Json.optional_fieldOfList _ _ _))

theorem ofJson_toJson (r : Rule) : ofJson r.toJson.sorted = .ok r.reread := by
  have haction : Fields.take ⟨none, none, []⟩ "action" (.string r.action.text) =
      .ok ⟨some r.action, none, []⟩ := by
    change (Action.ofJson (.string r.action.text) >>= _) = _
    rw [action_ofJson_text]
    rfl
  have hfilters : Json.takeFields Fields.take ⟨some r.action, none, []⟩
      (Json.sortedFields (Json.fieldOfList "filters" Filter.toJson r.filters)) =
        .ok ⟨some r.action, none, r.filters.map Filter.reread⟩ := by
    refine Json.takeFields_fieldOfList ?_ ?_
    · intro h
      rw [h]
      rfl
    · change (Json.asListOf Filter.ofJson _ >>= _) = _
      rw [Json.asListOf_map (f := Filter.reread) fun f _ => Filter.ofJson_toJson f]
      rfl
  have hoperations : Fields.take ⟨some r.action, none, r.filters.map Filter.reread⟩ "operations"
      (Json.array (r.operations.map .string)).sorted =
        .ok ⟨some r.action, some r.operations, r.filters.map Filter.reread⟩ := by
    change (Json.asListOf Json.asString _ >>= _) = _
    rw [asListOf_strings]
    rfl
  rw [sorted_toJson, ofJson, Json.asRecord, ← List.singleton_append,
    Json.takeFields_append (Json.takeFields_single haction), Json.takeFields_append hfilters,
    Json.takeFields_single hoperations]
  rfl

theorem reread_eq_iff (r : Rule) : r.reread = r ↔ Filter.EveryAll Filter.Unmarked r.filters := by
  obtain ⟨action, operations, filters⟩ := r
  rw [reread, Rule.mk.injEq, ← Filter.rereadAll_eq_map, Filter.rereadAll_eq_iff]
  exact ⟨fun h => h.2.2, fun h => ⟨rfl, rfl, h⟩⟩

end Rule

/-! ### Profiles -/

/-- No symbol in a value begins with the mark of a string. -/
def Declaration.Unmarked : Declaration → Prop
  | definition d => d.value.Unmarked
  | rule r => Filter.EveryAll Filter.Unmarked r.filters
  | version _ | debugMode _ | importPath _ => True

namespace Profile

/-- No symbol inside any value begins with the mark of a string. -/
def Unmarked (p : Profile) : Prop := ∀ d ∈ p.declarations, d.Unmarked

/-- What a profile is read as after it was encoded. -/
def reread (p : Profile) : Profile :=
  ⟨p.version, p.debugMode, p.imports, p.definitions.map Definition.reread,
    p.rules.map Rule.reread⟩

theorem map_eq_self_iff {α : Type} {f : α → α} {xs : List α} :
    xs.map f = xs ↔ ∀ x ∈ xs, f x = x := by
  conv => lhs; rhs; rw [← List.map_id xs]
  exact List.map_inj_left

theorem unmarked_iff {p : Profile} : p.Unmarked ↔ (∀ d ∈ p.definitions, d.value.Unmarked) ∧
    ∀ r ∈ p.rules, Filter.EveryAll Filter.Unmarked r.filters := by
  simp only [Unmarked, declarations, front, List.forall_mem_append, List.forall_mem_map,
    Declaration.Unmarked, implies_true, true_and]

theorem reread_eq_iff (p : Profile) : p.reread = p ↔ p.Unmarked := by
  obtain ⟨version, debugMode, imports, definitions, rules⟩ := p
  rw [unmarked_iff, reread, Profile.mk.injEq, map_eq_self_iff, map_eq_self_iff]
  simp only [Definition.reread_eq_iff, Rule.reread_eq_iff, true_and]

theorem sortFields_profile {version debugMode imports definitions rules : List (String × Json)}
    (hversion : Json.Optional "version" version) (hdebug : Json.Optional "debugMode" debugMode)
    (himports : Json.Optional "imports" imports)
    (hdefinitions : Json.Optional "definitions" definitions)
    (hrules : Json.Optional "rules" rules) :
    Json.sortFields (version ++ debugMode ++ imports ++ definitions ++ rules) =
      debugMode ++ (definitions ++ (imports ++ (rules ++ version))) := by
  have h₁ := Json.insertFields_between [] [] hversion nofun nofun
  have h₂ := Json.insertFields_between [] version hdebug nofun
    (hversion.above (by decide))
  have h₃ := Json.insertFields_between debugMode version himports (hdebug.below (by decide))
    (hversion.above (by decide))
  have h₄ := Json.insertFields_between debugMode (imports ++ version) hdefinitions
    (hdebug.below (by decide)) fun f hf => (List.mem_append.mp hf).elim
      (himports.above (by decide) f) (hversion.above (by decide) f)
  have h₅ := Json.insertFields_between (debugMode ++ (definitions ++ imports)) version hrules
    (List.forall_mem_append.mpr ⟨hdebug.below (by decide),
      List.forall_mem_append.mpr ⟨hdefinitions.below (by decide), himports.below (by decide)⟩⟩)
    (hversion.above (by decide))
  simp only [List.nil_append, List.append_nil] at h₁ h₂
  simp only [List.append_assoc] at h₅
  rw [Json.sortFields_eq, Json.insertFields_append, Json.insertFields_append,
    Json.insertFields_append, Json.insertFields_append, h₁, h₂, h₃, h₄, h₅]

/-- The fields of a profile in the order of their names. -/
theorem sorted_toJson (p : Profile) : p.toJson.sorted = .object (
    Json.sortedFields (Json.fieldOf "debugMode" (fun a => .string a.text) p.debugMode) ++
    (Json.sortedFields (Json.fieldOfList "definitions" Definition.toJson p.definitions) ++
    (Json.sortedFields (Json.fieldOfList "imports" .string p.imports) ++
    (Json.sortedFields (Json.fieldOfList "rules" Rule.toJson p.rules) ++
    Json.sortedFields (Json.fieldOf "version" (fun n => .integer n.toInt) p.version))))) := by
  rw [toJson, Json.sorted, Json.sortedFields_append, Json.sortedFields_append,
    Json.sortedFields_append, Json.sortedFields_append]
  exact congrArg Json.object (sortFields_profile (Json.optional_fieldOf ..)
    (Json.optional_fieldOf ..) (Json.optional_fieldOfList ..) (Json.optional_fieldOfList ..)
    (Json.optional_fieldOfList ..))

section Take

variable (p : Profile)

theorem take_debugMode : Json.takeFields take empty
    (Json.sortedFields (Json.fieldOf "debugMode" (fun a => .string a.text) p.debugMode)) =
      .ok ⟨none, p.debugMode, [], [], []⟩ := by
  refine Json.takeFields_fieldOf (fun h => by rw [h]; rfl) fun a ha => ?_
  change ((Except.map some (Action.ofJson (.string a.text))) >>= _) = _
  rw [action_ofJson_text, ha]
  rfl

theorem take_definitions : Json.takeFields take ⟨none, p.debugMode, [], [], []⟩
    (Json.sortedFields (Json.fieldOfList "definitions" Definition.toJson p.definitions)) =
      .ok ⟨none, p.debugMode, [], p.reread.definitions, []⟩ := by
  refine Json.takeFields_fieldOfList (fun h => by rw [reread, h]; rfl) ?_
  change (Json.asListOf Definition.ofJson _ >>= _) = _
  rw [Json.asListOf_map (f := Definition.reread) fun d _ => Definition.ofJson_toJson d]
  rfl

theorem take_imports : Json.takeFields take ⟨none, p.debugMode, [], p.reread.definitions, []⟩
    (Json.sortedFields (Json.fieldOfList "imports" .string p.imports)) =
      .ok ⟨none, p.debugMode, p.imports, p.reread.definitions, []⟩ := by
  refine Json.takeFields_fieldOfList (fun h => by rw [h]) ?_
  change (Json.asListOf Json.asString _ >>= _) = _
  rw [asListOf_strings]
  rfl

theorem take_rules : Json.takeFields take ⟨none, p.debugMode, p.imports, p.reread.definitions, []⟩
    (Json.sortedFields (Json.fieldOfList "rules" Rule.toJson p.rules)) =
      .ok ⟨none, p.debugMode, p.imports, p.reread.definitions, p.reread.rules⟩ := by
  refine Json.takeFields_fieldOfList (fun h => by simp [reread, h]) ?_
  change (Json.asListOf Rule.ofJson _ >>= _) = _
  rw [Json.asListOf_map (f := Rule.reread) fun r _ => Rule.ofJson_toJson r]
  rfl

theorem take_version : Json.takeFields take
    ⟨none, p.debugMode, p.imports, p.reread.definitions, p.reread.rules⟩
    (Json.sortedFields (Json.fieldOf "version" (fun n => .integer n.toInt) p.version)) =
      .ok p.reread := by
  refine Json.takeFields_fieldOf (fun h => by rw [reread, h]) fun n hn => ?_
  change ((Except.map some (Json.asInteger (.integer n.toInt))) >>= _) = _
  rw [Json.asInteger_toInt, reread, hn]
  rfl

end Take

theorem ofFields_toJson (p : Profile) : ∃ fields, p.toJson.sorted = .object fields ∧
    ofFields fields = .ok p.reread := by
  refine ⟨_, sorted_toJson p, ?_⟩
  rw [ofFields, Json.takeFields_append p.take_debugMode, Json.takeFields_append p.take_definitions,
    Json.takeFields_append p.take_imports, Json.takeFields_append p.take_rules]
  exact p.take_version

/-- An encoded profile that does not nest too deep is read, with its symbols read anew. -/
theorem ofJson_toJson {p : Profile} (h : p.toJson.sorted.nesting ≤ depthLimit) :
    ofJson p.toJson.sorted = .ok p.reread := by
  obtain ⟨fields, hsorted, hread⟩ := ofFields_toJson p
  rw [hsorted] at h ⊢
  rw [ofJson, if_neg (Nat.not_lt.mpr h), hread]
  rfl

/-- One that does is refused, with the levels that were found. -/
theorem ofJson_toJson_deep {p : Profile} (h : depthLimit < p.toJson.sorted.nesting) :
    ofJson p.toJson.sorted = .error (.tooDeep p.toJson.sorted.nesting depthLimit) := by
  obtain ⟨fields, hsorted, -⟩ := ofFields_toJson p
  rw [hsorted] at h ⊢
  rw [ofJson, if_pos h]

theorem ofJson_toJson_iff {p : Profile} (hp : p.Unmarked) :
    ofJson p.toJson.sorted = .ok p ↔ p.toJson.sorted.nesting ≤ depthLimit := by
  constructor
  · intro hread
    apply Nat.le_of_not_lt
    intro hdeep
    cases (ofJson_toJson_deep hdeep).symm.trans hread
  · intro hle
    rw [ofJson_toJson hle, (reread_eq_iff p).mpr hp]

end Profile

end SandboxProfile.Wire
