import Mathlib.Data.Option.Basic

/-!
# `Pipeline.Identity` — who signs for the storage service

A context identity is the payer, the chain and the record keeper a client signs for.

A chain ID that `ChainID.IsValid` refuses is `none`.
-/

namespace SynapS3

/-- `common.Address`; the zero address is none. -/
abbrev Address := Nat

/-- Who pays, and on which chain. -/
structure ContextIdentity where
  payer : Address
  chainID : Option Nat
  recordKeeper : Address
  deriving DecidableEq

def ContextIdentity.complete (c : ContextIdentity) : Bool :=
  c.payer != 0 && c.chainID.isSome && c.recordKeeper != 0

namespace Pipeline

/-- `storagepipeline.ExecutionIdentity`. -/
structure ExecutionIdentity where
  identity : Option ContextIdentity := none
  pdpVerifier : Option Address := none
  deriving DecidableEq

namespace ExecutionIdentity

def complete (i : ExecutionIdentity) : Bool := i.identity.any (·.complete) && i.pdpVerifier.any (· != 0)

def present (i : ExecutionIdentity) : Bool := i.identity.isSome || i.pdpVerifier.isSome

/-- `Match` with `ExecutionIdentityFailure`: `none` if the two agree, otherwise the failure reason. -/
def mismatch (i other : ExecutionIdentity) : Option String :=
  if !i.complete || !other.complete then some "storage_identity_missing"
  else if i ≠ other then some "storage_identity_changed"
  else none

end ExecutionIdentity

end Pipeline
end SynapS3
