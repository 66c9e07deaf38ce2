import SandboxProfile.Tree.Profile

/-!
# Building trees

Trees that were not read from a text: every range is the one that covers nothing. Declarations are
added one at a time.
-/

namespace SandboxProfile

namespace Rule

def new (action : Action) : Rule := ⟨action, [], [], .zero⟩

def addOperation (r : Rule) (name : String) : Rule :=
  ⟨r.action, r.operations ++ [⟨name, .zero⟩], r.filters, r.range⟩

def addFilter (r : Rule) (filter : Filter) : Rule :=
  ⟨r.action, r.operations, r.filters ++ [filter], r.range⟩

/-- Adds a filter with a type and a value. -/
def addSimple (r : Rule) (type : String) (value : Expr) : Rule :=
  r.addFilter (.simple type .zero value .zero)

end Rule

namespace Profile

/-- Sets the version, in place of any other. -/
def withVersion (p : Profile) (number : Int64) : Profile :=
  ⟨some ⟨number, .zero⟩, p.debug, p.imports, p.definitions, p.rules, p.range⟩

/-- Sets the debug mode, in place of any other. -/
def withDebug (p : Profile) (action : Action) : Profile :=
  ⟨p.version, some ⟨action, .zero⟩, p.imports, p.definitions, p.rules, p.range⟩

def addImport (p : Profile) (path : String) : Profile :=
  ⟨p.version, p.debug, p.imports ++ [⟨path, .zero, .zero⟩], p.definitions, p.rules, p.range⟩

def define (p : Profile) (name : String) (value : Expr) : Profile :=
  ⟨p.version, p.debug, p.imports, p.definitions ++ [⟨name, .zero, value, .zero⟩], p.rules, p.range⟩

def addRule (p : Profile) (rule : Rule) : Profile :=
  ⟨p.version, p.debug, p.imports, p.definitions, p.rules ++ [rule], p.range⟩

end Profile

end SandboxProfile
