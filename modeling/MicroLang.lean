import MicroLang.Main
import MicroLang.Scenario
import MicroLang.Proofs.Backlog
import MicroLang.Proofs.Containment
import MicroLang.Proofs.Execution
import MicroLang.Proofs.Layout
import MicroLang.Proofs.Progress
import MicroLang.Proofs.Temporaries
import MicroLang.Proofs.Violations
import MicroLang.Proofs.Declarations
import MicroLang.Proofs.Provenance
import MicroLang.Proofs.Rendering
import MicroLang.Proofs.Dump
import MicroLang.Proofs.JsonTree
import MicroLang.Proofs.OnDemand
import MicroLang.Proofs.Preorder
import MicroLang.Proofs.Truncation
import MicroLang.Proofs.Composition
import MicroLang.Proofs.Testimony
import MicroLang.Proofs.Delivery
import MicroLang.Proofs.Sections
import MicroLang.Proofs.Newlines
import MicroLang.Proofs.Insertions
import MicroLang.Proofs.Entries
