import Curve25519.Program
import Curve25519.Text.OctetArray
import Curve25519.Proofs.Curve.Completeness
import Curve25519.Proofs.Key.Canonical
import Curve25519.Proofs.Key.Collision
import Curve25519.Proofs.Key.Equality
import Curve25519.Proofs.Multiples
import Curve25519.Proofs.Representative.RoundTrip
import Curve25519.Proofs.Safety
import Curve25519.Proofs.Standard
