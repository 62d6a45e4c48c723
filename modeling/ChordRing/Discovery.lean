import ChordRing.Registry
import ChordRing.Failure

/-!
# The discovery node

The rendezvous point of a ring. It hands a newcomer a member to contact, keeps track of who joined
and who left, and hands uploaders a random member. The random choice is a number given from
outside, so that every choice is covered.
-/

namespace ChordRing

/-- A discovery node: the header of its replies and the members it knows. -/
structure Discovery where
  header : Header
  registry : Registry
  deriving DecidableEq, Repr

namespace Discovery

/-- A discovery node that knows nobody. -/
def new (header : Header) : Discovery := ⟨header, .empty⟩

/-- A reply under the node's own header. -/
def reply (d : Discovery) (body : Body) : Except DiscoveryError (Option Message) :=
  .ok (some ⟨d.header, body⟩)

/-- The answer to a candidate: the first of all is handed back to itself, a ring id that is held is
refused, and any other candidate gets a random member to contact. -/
def register (d : Discovery) (lot : Nat) (candidate : Identifier) : Body :=
  if d.registry.isEmpty then .registerPeerResponse true candidate
  else if d.registry.holds candidate.id then .registerPeerResponse false candidate
  else .registerPeerResponse true ((d.registry.pick? lot).getD candidate)

/-- What the node does with a message: the node afterwards, and a reply, nothing, or a refusal. -/
def process (d : Discovery) (lot : Nat) (m : Message) :
    Discovery × Except DiscoveryError (Option Message) :=
  match m.body with
  | .registerPeerRequest candidate => (d, d.reply (d.register lot candidate))
  | .networkJoinNotification p => ({ d with registry := d.registry.insert p }, .ok none)
  | .networkExitNotification p => ({ d with registry := d.registry.erase p }, .ok none)
  | .getRandomPeerRequest =>
      match d.registry.pick? lot with
      | some p => (d, d.reply (.getRandomPeerResponse p))
      | none => (d, d.reply (.statusResponse .error))
  | _ => (d, .error (.unsupportedRequest m.kind.name))

end Discovery

end ChordRing
