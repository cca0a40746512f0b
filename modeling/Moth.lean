import Moth.Main
import Moth.Tree.Sketch
import Moth.Proofs.Number.RoundTrip
import Moth.Proofs.Parsing.Fragments
import Moth.Proofs.Parsing.Progress
import Moth.Proofs.Renaming.Behaviour
import Moth.Proofs.Rendering.Behaviour
import Moth.Proofs.Resolving.WellFormed
import Moth.Proofs.Session.Assignments
import Moth.Proofs.Session.Chains
import Moth.Proofs.Session.Entries
import Moth.Proofs.Session.ForLoops
import Moth.Proofs.Session.Printing
import Moth.Proofs.Session.Rows
