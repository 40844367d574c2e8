import Faultline.Main
import Faultline.Proofs.Analysis.BackEdge
import Faultline.Proofs.Check.Pool
import Faultline.Proofs.Models
import Faultline.Proofs.Twin.Reading
import Faultline.Proofs.Instrument.Detection
import Faultline.Proofs.Analysis.Branch
import Faultline.Proofs.Analysis.Address
import Faultline.Proofs.Analysis.Makers
import Faultline.Proofs.Instrument.Speculation
import Faultline.Proofs.Analysis.Pointer
import Faultline.Proofs.Flow.Index
