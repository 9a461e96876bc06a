import LineShell.Main
import LineShell.Pipeline.Probe
import LineShell.Proofs.Quoting
import LineShell.Proofs.Structure
import LineShell.Proofs.Order
import LineShell.Proofs.Rejection
import LineShell.Proofs.Tables
import LineShell.Proofs.Words
import LineShell.Proofs.Unwinding
import LineShell.Proofs.Termination
import LineShell.Proofs.Redirecting
import LineShell.Proofs.Exiting
import LineShell.Proofs.Background
import LineShell.Proofs.Readers
import LineShell.Proofs.Logging
import LineShell.Proofs.Latest
import LineShell.Proofs.Rescanning
import LineShell.Proofs.Assigning
import LineShell.Proofs.Trimming
import LineShell.Proofs.Toggling
import LineShell.Proofs.Commenting
import LineShell.Proofs.Building
import LineShell.Proofs.Overwriting
import LineShell.Proofs.Collecting
import LineShell.Proofs.Exporting
import LineShell.Proofs.Counting
import LineShell.Proofs.Containing
import LineShell.Proofs.Echoing
import LineShell.Proofs.Prompting
import LineShell.Proofs.Locating
import LineShell.Proofs.Delivering
import LineShell.Proofs.Regions
