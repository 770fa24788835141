import Netramesh.Proofs.Requests
import Netramesh.Proofs.Targets
import Netramesh.Proofs.Context
import Netramesh.Proofs.Final
import Netramesh.Proofs.Spans
import Netramesh.Proofs.Detour
import Netramesh.Proofs.Modes
import Netramesh.Proofs.Routes
import Netramesh.Proofs.Clear
import Netramesh.Proofs.Ports
import Netramesh.Proofs.Tags
import Netramesh.Proofs.Fifo
import Netramesh.Proofs.Propagation
import Netramesh.Proofs.KeepAlive
import Netramesh.Proofs.Unaltered
import Netramesh.Proofs.Addresses
import Netramesh.Proofs.Returned
import Netramesh.Proofs.InStep
import Netramesh.Proofs.Mesh
import Netramesh.Proofs.OneTrace
