import ChipEight.Console.Action
import ChipEight.Instruction.Encode
import ChipEight.Instruction.Text
import ChipEight.Desktop.Arguments
import ChipEight.Desktop.Session
import ChipEight.Main
import ChipEight.Proofs.Drawing
import ChipEight.Proofs.Effect
import ChipEight.Proofs.Trail
import ChipEight.Proofs.History
import ChipEight.Proofs.Screen
import ChipEight.Proofs.Event
import ChipEight.Proofs.KeyWait
import ChipEight.Proofs.FreshLoad
import ChipEight.Proofs.Bare.Guarded
import ChipEight.Proofs.Bare.Memory
import ChipEight.Proofs.Bare.Frame
import ChipEight.Proofs.Bare.Machine
import ChipEight.Proofs.Bare.Console
import ChipEight.Proofs.Faultless
import ChipEight.Proofs.Subroutine
import ChipEight.Proofs.AddressWrap
import ChipEight.Proofs.InPlace
import ChipEight.Proofs.Refusal
import ChipEight.Proofs.Control
import ChipEight.Proofs.Schedule
import ChipEight.Proofs.Countdown
import ChipEight.Proofs.Calls
import ChipEight.Proofs.FailingPeripherals
import ChipEight.Proofs.Panel
import ChipEight.Proofs.Stores
import ChipEight.Proofs.DigitSprites
import ChipEight.Proofs.OpcodeTable
import ChipEight.Proofs.Assembly
import ChipEight.Proofs.StraightLine
import ChipEight.Proofs.EventLoop
import ChipEight.Proofs.SpriteHits
import ChipEight.Proofs.DrawOrder
import ChipEight.Proofs.Footprint
import ChipEight.Proofs.FlagArithmetic
import ChipEight.Proofs.BlockTransfer
import ChipEight.Proofs.Budget
import ChipEight.Proofs.RandomOrder
import ChipEight.Proofs.KeyHistory
import ChipEight.Proofs.Rest
import ChipEight.Proofs.ListedImage
import ChipEight.Proofs.ReportedPlace
import ChipEight.Proofs.Bare.Painting
import ChipEight.Proofs.Bare.Texture
import ChipEight.Proofs.Upload
import ChipEight.Proofs.Bare.Tone
import ChipEight.Proofs.ExecutedOnce
import ChipEight.Proofs.SampleStream
import ChipEight.Proofs.WindowSize
