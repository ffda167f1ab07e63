import TemplateLexer.Binary
import TemplateLexer.Transcript
import TemplateLexer.Proofs.OnePass
import TemplateLexer.Proofs.Upcoming
import TemplateLexer.Proofs.Outlook
import TemplateLexer.Proofs.Failures
import TemplateLexer.Proofs.Streaming
import TemplateLexer.Proofs.Lossless
import TemplateLexer.Proofs.LittleEndian
import TemplateLexer.Proofs.Cuts
import TemplateLexer.Proofs.MalformedText
import TemplateLexer.Proofs.Grammar
import TemplateLexer.Proofs.TokenOrder
import TemplateLexer.Proofs.Parts
import TemplateLexer.Proofs.Canonical
import TemplateLexer.Proofs.Queue
import TemplateLexer.Proofs.Newlines
import TemplateLexer.Proofs.Finishing
import TemplateLexer.Proofs.SharedBeginning
import TemplateLexer.Proofs.MinimalReads
import TemplateLexer.Proofs.ReadRoom
import TemplateLexer.Proofs.Retries
import TemplateLexer.Proofs.ReadPositions
import TemplateLexer.Proofs.Rounds
import TemplateLexer.Proofs.BoundedWork
import TemplateLexer.Proofs.Codes
import TemplateLexer.Proofs.FirstError
import TemplateLexer.Proofs.Diagnosis
import TemplateLexer.Proofs.Checks
import TemplateLexer.Proofs.Inventory
