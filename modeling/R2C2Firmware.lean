import R2C2Firmware.Verified.Number
import R2C2Firmware.Verified.Binary64
import R2C2Firmware.Verified.Ring
import R2C2Firmware.Ports.Config
import R2C2Firmware.Ports.MotionPlanner
import R2C2Firmware.Verified.Lookahead
import R2C2Firmware.Ports.MotionPlannerQueue
import R2C2Firmware.Ports.MotionPlannerPlan
import R2C2Firmware.Ports.MotionPlannerFeasible
import R2C2Firmware.Ports.FastestPlan
import R2C2Firmware.Verified.Bresenham
import R2C2Firmware.Ports.Stepper
import R2C2Firmware.Ports.StepperPulses
import R2C2Firmware.Ports.StepperFrame
import R2C2Firmware.Ports.StepperFifo
import R2C2Firmware.Ports.StepperRace
import R2C2Firmware.Ports.StepperRate
import R2C2Firmware.Ports.StepperDrain
import R2C2Firmware.Ports.StepperConservation
import R2C2Firmware.Verified.BusyWait
import R2C2Firmware.Verified.Watch
import R2C2Firmware.Ports.Sermsg
import R2C2Firmware.Ports.Temp
import R2C2Firmware.Ports.GcodeParse
import R2C2Firmware.Ports.Mendel
import R2C2Firmware.Ports.GcodeProcess
import R2C2Firmware.Ports.MainLoop
import R2C2Firmware.Ports.GcodeEffects
import R2C2Firmware.Ports.CommandFrame
import R2C2Firmware.Ports.HeaterTargets
import R2C2Firmware.Ports.PlanCalls
import R2C2Firmware.Ports.EmergencyStop
import R2C2Firmware.Ports.PositionAgreement
import R2C2Firmware.Ports.FeedRate
import R2C2Firmware.Ports.RateDelta
import R2C2Firmware.Ports.RateSetting
import R2C2Firmware.Ports.Autoexec
import R2C2Firmware.Ports.ReadConfig
import R2C2Firmware.Ports.Tokenizer
import R2C2Firmware.Ports.ConfigFile
import R2C2Firmware.Ports.ConfigRoundTrip
import R2C2Firmware.Ports.ModalFeed
import R2C2Firmware.Ports.ParserInvariant
import R2C2Firmware.Ports.FilenameBounds
import R2C2Firmware.Verified.TextLines
import R2C2Firmware.Ports.Acknowledge
import R2C2Firmware.Ports.YHoming
import R2C2Firmware.Verified.Settling
import R2C2Firmware.Ports.Checksum
import R2C2Firmware.Ports.Resend
import R2C2Firmware.Ports.SdCard
import R2C2Firmware.Verified.LineReader
import R2C2Firmware.Ports.SerialFifo
import R2C2Firmware.Ports.AppMain
import R2C2Firmware.Verified.Framing
import R2C2Firmware.Ports.SerialFraming
import R2C2Firmware.Ports.SerialTransmit
import R2C2Firmware.Ports.SdPrinting
import R2C2Firmware.Ports.SdPosition
import R2C2Firmware.Ports.DirectoryListing
import R2C2Firmware.Ports.SdSwitching
import R2C2Firmware.Ports.SdRoundTrip
import R2C2Firmware.Ports.Oblivious
import R2C2Firmware.Ports.StaleWords
import R2C2Firmware.Ports.LineIndependence
import R2C2Firmware.Ports.Sdcard
import R2C2Firmware.Ports.SdcardReady
import R2C2Firmware.Ports.SlowTimer
import R2C2Firmware.Ports.StraightLine
import R2C2Firmware.Ports.Trapezoid
import R2C2Firmware.Ports.SpeedLimit
import R2C2Firmware.Ports.DefaultAcceleration
import R2C2Firmware.Ports.NumberWords
import R2C2Firmware.Ports.NumberRounding
import R2C2Firmware.Ports.AxisWords
import R2C2Firmware.Ports.WordOrder
import R2C2Firmware.Ports.Comments
import R2C2Firmware.Ports.LineEnd
import R2C2Firmware.Ports.CommandNumbers
import R2C2Firmware.Ports.RelativeMoves
import R2C2Firmware.Ports.WaitBlocks
import R2C2Firmware.Ports.DecimalOutput
import R2C2Firmware.Ports.FormattedOutput
import R2C2Firmware.Ports.ConfigNumbers
import R2C2Firmware.Ports.TempTable
import R2C2Firmware.Ports.AdcFilter
import R2C2Firmware.Verified.FirstFit
import R2C2Firmware.Ports.KernelHeap
import R2C2Firmware.Ports.PulseHistory
import R2C2Firmware.Ports.OriginFree
import R2C2Firmware.Ports.PulseBalance
