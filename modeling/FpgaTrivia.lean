import FpgaTrivia.Transition.Run
import FpgaTrivia.Transition.Log
import FpgaTrivia.Transition.Chunks
import FpgaTrivia.Transition.Register
import FpgaTrivia.Transition.Progress
import FpgaTrivia.Transition.Enabled
import FpgaTrivia.Transition.Timer
import FpgaTrivia.Hardware.Game
import FpgaTrivia.Hardware.CharBuffer
import FpgaTrivia.Hardware.Paint
import FpgaTrivia.Hardware.DriverRun
import FpgaTrivia.Hardware.PixelStream
import FpgaTrivia.Hardware.Frames
import FpgaTrivia.Hardware.VgaTiming
import FpgaTrivia.Hardware.VgaController
import FpgaTrivia.Hardware.Pins
import FpgaTrivia.Hardware.ClockDivider
import FpgaTrivia.Hardware.DividedClock
import FpgaTrivia.Arith.Buckets
import FpgaTrivia.Shuffle.Exchange
import FpgaTrivia.Shuffle.Forward
import FpgaTrivia.Software.Question
import FpgaTrivia.Software.Random
import FpgaTrivia.Software.BusySleep
import FpgaTrivia.Software.DeviceList
import FpgaTrivia.Software.Fairness
import FpgaTrivia.Software.Calls
import FpgaTrivia.Software.Keys
import FpgaTrivia.Software.Display
import FpgaTrivia.Software.Layout
import FpgaTrivia.Software.Loop
import FpgaTrivia.Software.Control
import FpgaTrivia.Software.Verdict
import FpgaTrivia.Software.Alike
import FpgaTrivia.Software.Session
import FpgaTrivia.Software.Highlight
import FpgaTrivia.Software.Outputs
import FpgaTrivia.Software.Screen
import FpgaTrivia.Software.Painting
import FpgaTrivia.System.Board
import FpgaTrivia.System.LevelRange
import FpgaTrivia.System.Hold
import FpgaTrivia.System.Pacing
import FpgaTrivia.System.Secrecy
import FpgaTrivia.System.Sampling
import FpgaTrivia.System.Recording
import FpgaTrivia.System.Schedule
import FpgaTrivia.System.Publishing
import FpgaTrivia.System.Painted
import FpgaTrivia.System.Playing
import FpgaTrivia.System.Winning
import FpgaTrivia.System.TopLevel
import FpgaTrivia.System.Clocked
import FpgaTrivia.System.Showing
