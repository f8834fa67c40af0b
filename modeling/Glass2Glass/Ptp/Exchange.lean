import Glass2Glass.Ptp.Servo
import Mathlib.Algebra.Order.Group.Int

/-!
# The arithmetic of an exchange

What `PtpServo::sync_exchange` (`g2g-core/src/ptp/mod.rs`) makes of four times from the wire. It measures in
integers and then narrows: the master time and the delay to their words, and each of the two times whose
difference is the error to a word with a sign.
-/

namespace Glass2Glass.Ptp

namespace PtpServo

variable {δ : Type} (clock : DriftClock δ) (s : PtpServo δ) (t1 t2 t3 t4 : Nat)

/-- The answer to a sample, whose delay is kept if it was accepted. -/
def recorded (folded : ExchangeResult × PtpServo δ) (delay : Int) : ExchangeResult × PtpServo δ :=
  (folded.1, if folded.1 = .accepted then { folded.2 with lastDelayNs := delay } else folded.2)

variable {clock s t1 t2 t3 t4}

end PtpServo

end Glass2Glass.Ptp
