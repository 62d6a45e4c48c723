import ChordRing.Json.Reader
import ChordRing.Main
import ChordRing.Proofs.Connection
import ChordRing.Proofs.FingerOrder
import ChordRing.Proofs.Forwarding
import ChordRing.Proofs.Itinerary
import ChordRing.Proofs.Lap
import ChordRing.Proofs.Numerals
import ChordRing.Proofs.Overtaking
import ChordRing.Proofs.Ownership
import ChordRing.Proofs.Progress
import ChordRing.Proofs.Rejoining
import ChordRing.Proofs.Repair
import ChordRing.Proofs.Truncation
import ChordRing.Proofs.Uploading
