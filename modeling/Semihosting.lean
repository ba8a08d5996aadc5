import Semihosting.Main
import Semihosting.Proofs.ByteOrder.Registers
import Semihosting.Proofs.Command.AllOrNothing
import Semihosting.Proofs.Guarded.Messages
import Semihosting.Proofs.Json.Forms
import Semihosting.Proofs.Message.Agreement
import Semihosting.Proofs.Message.Composition
import Semihosting.Proofs.Message.Curtailment
import Semihosting.Proofs.Message.Economy
import Semihosting.Proofs.Message.Halting
import Semihosting.Proofs.Message.Indifference
import Semihosting.Proofs.Message.Negotiation
import Semihosting.Proofs.Message.ReplyRoundTrip
import Semihosting.Proofs.Message.Signs
import Semihosting.Proofs.Parameter.Slots
import Semihosting.Proofs.Request.Regrouping
import Semihosting.Proofs.Response.Rewriting
import Semihosting.Proofs.Riff.Construction
import Semihosting.Proofs.Riff.Halting
import Semihosting.Proofs.Riff.Locality
