import ServerBox.Std.Text

/-!
# Servers

What `Spi` and `SshCredential` of `src/lib/data/model/server/` say of where a server is and of
the servers it is reached through.
-/

namespace ServerBox.Ssh

open ServerBox.Std

/-- `add` of `resolvedJumpIds` for one id after another. -/
def addIds (ids : List Text) : List Text → List Text
  | [] => ids
  | id :: rest => addIds (if id = [] ∨ id ∈ ids then ids else ids ++ [id]) rest

structure SshCredential where
  ip : Text
  port : Nat
  user : Text
  /-- The first jump server, from records written before `jumpIds`. -/
  jumpId : Option Text
  jumpIds : Option (List Text)

/-- `jumpIds` first, falling back to the legacy single `jumpId` only when that list yields
nothing. -/
def SshCredential.resolvedJumpIds (ssh : SshCredential) : List Text :=
  let ids := addIds [] (ssh.jumpIds.getD [])
  if ids = [] then addIds ids ssh.jumpId.toList else ids

structure Spi where
  id : Text
  ssh : Option SshCredential

namespace Spi

def resolvedJumpIds (spi : Spi) : List Text := (spi.ssh.map SshCredential.resolvedJumpIds).getD []

/-- The pre-1155 storage key. -/
def oldId (spi : Spi) : Text :=
  match spi.ssh with
  | none => spi.id
  | some ssh => ssh.user ++ '@' :: ssh.ip ++ ':' :: (toString ssh.port).toList

end Spi

def hostKeyServerId (spi : Spi) : Text := if spi.id ≠ [] then spi.id else spi.oldId

/-- An id is among those added when it was there or is not empty. -/
theorem mem_addIds {ids added : List Text} {id : Text} :
    id ∈ addIds ids added ↔ id ∈ ids ∨ id ∈ added ∧ id ≠ [] := by
  induction added generalizing ids with
  | nil => simp [addIds]
  | cons first rest inductionHypothesis =>
      rw [addIds, inductionHypothesis]
      by_cases skipped : first = [] ∨ first ∈ ids
      · rw [if_pos skipped]
        grind
      · rw [if_neg skipped]
        grind

/-- What was added is at the front still. -/
theorem prefix_addIds (ids added : List Text) : ids <+: addIds ids added := by
  induction added generalizing ids with
  | nil => exact List.prefix_rfl
  | cons first rest inductionHypothesis =>
      rw [addIds]
      split
      next => exact inductionHypothesis ids
      next => exact (List.prefix_append ids [first]).trans (inductionHypothesis _)

theorem ne_nil_of_mem_resolvedJumpIds {spi : Spi} {id : Text} (among : id ∈ spi.resolvedJumpIds) :
    id ≠ [] := by
  unfold Spi.resolvedJumpIds at among
  cases held : spi.ssh with
  | none =>
      rw [held] at among
      cases among
  | some ssh =>
      rw [held] at among
      change id ∈ ssh.resolvedJumpIds at among
      simp only [SshCredential.resolvedJumpIds] at among
      split at among
      next isEmpty =>
        rcases mem_addIds.mp among with first | legacy
        · rw [isEmpty] at first
          cases first
        · exact legacy.2
      next =>
        rcases mem_addIds.mp among with first | listed
        · cases first
        · exact listed.2

end ServerBox.Ssh
