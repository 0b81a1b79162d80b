import Marshal.Registry.Call

namespace Marshal

namespace Outcome

def entries (o : Outcome) : List LogEntry := logged o.notices

def copy? (o : Outcome) : Option Registry :=
  match o.answer with
  | .copied result => result.toOption
  | _ => none

end Outcome

namespace Registry

/-- Something that is asked of registries side by side. -/
inductive Request where
  | create (options : Options)
  | clone (parent : Nat) (overrides : Options)
  /-- A call of one registry. The call `clone` has the copy take the place of the registry. -/
  | call (who : Nat) (call : Call)

namespace Request

/-- New registries come last, and a call changes no registry but the one that is asked. -/
def apply (registries : List Registry) : Request → List Registry
  | create options => registries ++ [new options]
  | clone parent overrides =>
    registries ++
      (registries[parent]?.bind fun r => ((r.clone overrides).run []).1.toOption).toList
  | call who asked => registries.modify who fun r => (r.perform asked).registry

def registriesAfter (requests : List Request) : List Registry := requests.foldl apply []

/-- The binding that registry `i` is asked for, if it is. -/
def bindingOf? (i : Nat) : Request → Option Call
  | call who asked => if who = i ∧ asked.rebinds then some asked else none
  | create _ | clone .. => none

def bindingsOf (i : Nat) (requests : List Request) : List Call := requests.filterMap (bindingOf? i)

/-- The registry that is asked, and the call that it is asked for. -/
def asked? (registries : List Registry) : Request → Option (Registry × Call)
  | create _ => none
  | clone parent overrides => registries[parent]?.map (·, .copy overrides)
  | call who asked => registries[who]?.map (·, asked)

/-- What a request comes to with no sink, if a registry is asked. -/
def outcome? (registries : List Registry) (request : Request) : Option Outcome :=
  (request.asked? registries).map fun (r, asked) => r.perform asked

def entries (registries : List Registry) (request : Request) : List LogEntry :=
  ((request.outcome? registries).map Outcome.entries).getD []

/-- The registries after a request that came to this. -/
def settle (registries : List Registry) (came : Option Outcome) : Request → List Registry
  | create options => registries ++ [new options]
  | clone .. => registries ++ (came.bind Outcome.copy?).toList
  | call who _ => (came.map fun o => registries.set who o.registry).getD registries

/-- What requests come to with no sink, one after the other. -/
def outcomes (registries : List Registry) : List Request → List (Option Outcome)
  | [] => []
  | request :: rest => request.outcome? registries :: outcomes (request.apply registries) rest

def emitted (registries : List Registry) (requests : List Request) : List LogEntry :=
  (outcomes registries requests).flatMap fun came => (came.map Outcome.entries).getD []

end Request

end Registry

end Marshal
