import SandboxProfile.Proofs.Grammar

/-!
# Derivations as forests

The tokens that a derivation derives, grouped by parentheses, are a forest of the same shape
(`ofKinds_kinds`). Readers are compared with derivations on these forests, where no token has to be
looked for.
-/

namespace SandboxProfile.Grammar

open Forest (word group Whole)

namespace Expr

mutual

/-- An expression in front of other trees. -/
def forest : Expr → Forest → Forest
  | integer n, rest => word (.integer n) rest
  | string s, rest => word (.string s) rest
  | rawString s, rest => word (.rawString s) rest
  | boolean b, rest => word (.boolean b) rest
  | symbol name, rest => word (.symbol name) rest
  | list items, rest => group (forestAll items) rest

def forestAll : List Expr → Forest
  | [] => .done
  | x :: xs => x.forest (forestAll xs)

end

mutual

theorem kinds_forest : ∀ (x : Expr) (rest : Forest),
    (x.forest rest).kinds = x.kinds ++ rest.kinds
  | integer _, _ | string _, _ | rawString _, _ | boolean _, _ | symbol _, _ => rfl
  | list items, rest => by
    rw [forest, Forest.kinds_group, kinds_forestAll items, kinds]
    simp

theorem kinds_forestAll : ∀ xs : List Expr, (forestAll xs).kinds = kindsAll xs
  | [] => rfl
  | x :: xs => by rw [forestAll, kinds_forest x, kinds_forestAll xs, kindsAll]

end

mutual

theorem whole_forest : ∀ (x : Expr) {rest : Forest}, Whole rest → Whole (x.forest rest)
  | integer _, _, h | string _, _, h | rawString _, _, h | boolean _, _, h | symbol _, _, h =>
    .leaf nofun nofun h
  | list items, _, h => .group (whole_forestAll items) h

theorem whole_forestAll : ∀ xs : List Expr, Whole (forestAll xs)
  | [] => .done
  | x :: xs => whole_forest x (whole_forestAll xs)

end

end Expr

namespace Filter

mutual

/-- The trees between the parentheses. -/
def innerForest : Filter → Forest
  | empty => .done
  | compound kind parts => word (.symbol kind.text) (forestAll parts)
  | negation part => word (.symbol negationText) (group part.innerForest .done)
  | simple type _ value extras => word (.symbol type) (value.forest (Expr.forestAll extras))
  | expression first _ more => first.forest (Expr.forestAll more)

def forestAll : List Filter → Forest
  | [] => .done
  | f :: fs => group f.innerForest (forestAll fs)

end

mutual

theorem kinds_innerForest : ∀ f : Filter, f.innerForest.kinds = f.inner
  | empty => rfl
  | compound kind parts => by
    rw [innerForest, Forest.kinds_leaf, bare_kind, kinds_forestAll parts, inner]
  | negation part => by
    rw [innerForest, Forest.kinds_leaf, bare_kind, Forest.kinds_group, kinds_innerForest part,
      inner, Forest.kinds_done]
  | simple type _ value extras => by
    rw [innerForest, Forest.kinds_leaf, bare_kind, Expr.kinds_forest, Expr.kinds_forestAll, inner,
      Expr.kindsAll]
  | expression first _ more => by
    rw [innerForest, Expr.kinds_forest, Expr.kinds_forestAll, inner, Expr.kindsAll]

theorem kinds_forestAll : ∀ fs : List Filter, (forestAll fs).kinds = kindsAll fs
  | [] => rfl
  | f :: fs => by
    rw [forestAll, Forest.kinds_group, kinds_innerForest f, kinds_forestAll fs, kindsAll]

end

mutual

theorem whole_innerForest : ∀ f : Filter, Whole f.innerForest
  | empty => .done
  | compound _ parts => .leaf nofun nofun (whole_forestAll parts)
  | negation part => .leaf nofun nofun (.group (whole_innerForest part) .done)
  | simple _ _ value extras =>
    .leaf nofun nofun (value.whole_forest (Expr.whole_forestAll extras))
  | expression first _ more => first.whole_forest (Expr.whole_forestAll more)

theorem whole_forestAll : ∀ fs : List Filter, Whole (forestAll fs)
  | [] => .done
  | f :: fs => .group (whole_innerForest f) (whole_forestAll fs)

end

end Filter

namespace Item

def forest : Item → Forest → Forest
  | operation name, rest => word (.symbol name) rest
  | filter f, rest => group f.innerForest rest

def forestAll : List Item → Forest
  | [] => .done
  | i :: is => i.forest (forestAll is)

theorem kinds_forestAll (is : List Item) : (forestAll is).kinds = is.flatMap kinds := by
  induction is with
  | nil => rfl
  | cons i is ih =>
    rw [forestAll, List.flatMap_cons, ← ih]
    cases i with
    | operation name => rfl
    | filter f =>
      rw [forest, Forest.kinds_group, f.kinds_innerForest, kinds, Filter.kinds]
      simp

theorem whole_forestAll (is : List Item) : Whole (forestAll is) := by
  induction is with
  | nil => exact .done
  | cons i is ih =>
    cases i with
    | operation name => exact .leaf nofun nofun ih
    | filter f => exact .group f.whole_innerForest ih

end Item

namespace Form

/-- The trees between the parentheses. -/
def innerForest : Form → Forest
  | empty => .done
  | version n => word (.symbol "version") (word (.integer n) .done)
  | debug action => word (.symbol "debug") (word (.symbol action.text) .done)
  | importPath raw path =>
    word (.symbol "import") (word (if raw then .rawString path else .string path) .done)
  | definition name value => word (.symbol "define") (word (.symbol name) (value.forest .done))
  | procedure name parameters _ value =>
    word (.symbol "define") (group (word (.symbol name) (.ofKinds parameters)) (value.forest .done))
  | rule action items => word (.symbol action.text) (Item.forestAll items)
  | unknown name _ body _ => word (.symbol name) (.ofKinds body)

theorem kinds_innerForest (f : Form) : f.innerForest.kinds = f.inner := by
  cases f with
  | empty => rfl
  | version n => rfl
  | debug action => rfl
  | importPath raw path => rfl
  | definition name value =>
    simp only [innerForest, Forest.kinds_leaf, bare_kind, Expr.kinds_forest, Forest.kinds_done,
      List.append_nil, inner]
  | procedure name parameters _ value =>
    simp only [innerForest, Forest.kinds_leaf, bare_kind, Forest.kinds_group, Expr.kinds_forest,
      Forest.kinds_done, Forest.kinds_ofKinds, List.append_nil, List.cons_append, inner]
  | rule action items =>
    rw [innerForest, Forest.kinds_leaf, bare_kind, Item.kinds_forestAll, inner]
  | unknown name _ body _ =>
    rw [innerForest, Forest.kinds_leaf, bare_kind, Forest.kinds_ofKinds, inner]

theorem whole_innerForest (f : Form) : Whole f.innerForest := by
  cases f with
  | empty => exact .done
  | version n => exact .leaf nofun nofun (.leaf nofun nofun .done)
  | debug action => exact .leaf nofun nofun (.leaf nofun nofun .done)
  | importPath raw path =>
    refine .leaf nofun nofun ?_
    cases raw <;> exact .leaf nofun nofun .done
  | definition name value => exact .leaf nofun nofun (.leaf nofun nofun (value.whole_forest .done))
  | procedure name parameters balanced value =>
    exact .leaf nofun nofun (.group (.leaf nofun nofun (Forest.whole_ofKinds balanced))
      (value.whole_forest .done))
  | rule action items => exact .leaf nofun nofun (Item.whole_forestAll items)
  | unknown name _ body balanced => exact .leaf nofun nofun (Forest.whole_ofKinds balanced)

end Form

def forestAll : List Form → Forest
  | [] => .done
  | f :: fs => group f.innerForest (forestAll fs)

theorem kinds_forestAll (fs : List Form) : (forestAll fs).kinds = kinds fs := by
  induction fs with
  | nil => rfl
  | cons f fs ih =>
    rw [forestAll, Forest.kinds_group, f.kinds_innerForest, ih]
    simp [kinds, Form.kinds]

theorem whole_forestAll (fs : List Form) : Whole (forestAll fs) := by
  induction fs with
  | nil => exact .done
  | cons f fs ih => exact .group f.whole_innerForest ih

/-- Grouping the tokens of a derivation gives the forest of its shape. -/
theorem ofKinds_kinds (fs : List Form) : Forest.ofKinds (kinds fs) = forestAll fs := by
  rw [← kinds_forestAll, Forest.ofKinds_kinds (whole_forestAll fs).closed]

end SandboxProfile.Grammar
