import TalkSphere.Definitions

/-! Calls on boards: who may make them, and the terms they select. -/

namespace TalkSphere.Board

open Json (Tree)

/-! Authority. -/

inductive Action
  | publish
  | read
  | cache
  | select
  deriving DecidableEq, Repr

/-- A grant refers to its issuer weakly; an issuer that is gone is nobody's own. -/
structure Grant where
  domain : Nat
  publisher : IdentityId
  action : Action
  bytes : Nat

structure Authority where
  domain : Nat

/-- What a check observes: the clock, and whether the issuer has revoked its grants. -/
structure Moment where
  now : Nat
  live : Bool

def Authority.check (authority : Authority) (live : Bool) (grant : Grant) (publisher : IdentityId)
    (action : Action) (bytes : Nat) : Except Stop Unit :=
  if grant.domain ≠ authority.domain ∨ live = false ∨ grant.publisher ≠ publisher ∨
      grant.action ≠ action then refuse .denied
  else if bytes > grant.bytes then refuse .limit
  else .ok ()

structure Context where
  grant : Grant
  deadline : Nat
  cancelled : Bool

def Context.check (context : Context) (authority : Authority) (moment : Moment)
    (publisher : IdentityId) (action : Action) (bytes : Nat) : Except Stop Unit :=
  if context.cancelled ∨ moment.now ≥ context.deadline then refuse .cancelled
  else authority.check moment.live context.grant publisher action bytes

/-! Selections. -/

structure Request where
  id : String
  service : String
  version : Nat
  description : String
  other : IdentityId
  authenticated : Bool

structure Selection where
  offering : Offering
  definition : Definition
  publisher : IdentityId
  requester : IdentityId
  provider : IdentityId

def select (o : Offering) (d : Definition) (publisher : IdentityId) (r : Request)
    (caps : Capabilities) : Except Stop Selection := do
  if o.service ≠ r.service ∨ o.version ≠ r.version ∨ o.description ≠ r.description then
    refuse .stale
  else
    assess caps o d r.authenticated false
    let (requester, provider) := match o.direction with
      | .provided => (r.other, publisher)
      | .wanted => (publisher, r.other)
    .ok ⟨o, d, publisher, requester, provider⟩

/-- What surrounds a call: at each of its checks the moment, at each question the local
capabilities, and at each look at the pins the references of the callers. -/
structure Surroundings where
  moment : Nat → Moment
  caps : Nat → Capabilities
  held : Nat → Nat → Nat

end TalkSphere.Board
