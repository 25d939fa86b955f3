import PkgsourceYaml.Recipe
import PkgsourceYaml.Profiles
import PkgsourceYaml.Libyaml
import PkgsourceYaml.Proof.Document
import PkgsourceYaml.Proof.Limits
import PkgsourceYaml.Proof.Features
import PkgsourceYaml.Proof.Fields
import PkgsourceYaml.Proof.Release
import PkgsourceYaml.Library.Entrywise
import PkgsourceYaml.Proof.RecipeGrammar
import PkgsourceYaml.Proof.ProfilesGrammar
import PkgsourceYaml.Proof.Exactness
import PkgsourceYaml.Proof.Faults
import PkgsourceYaml.Proof.Containment
import PkgsourceYaml.Order
import PkgsourceYaml.Proof.Order
import PkgsourceYaml.Proof.Stability
import PkgsourceYaml.Scan
import PkgsourceYaml.Proof.Scan
import PkgsourceYaml.Keys
import PkgsourceYaml.Proof.Keys
import PkgsourceYaml.Counters
import PkgsourceYaml.Proof.Counters
import PkgsourceYaml.Presentation
import PkgsourceYaml.Proof.Agreement
import PkgsourceYaml.Proof.Decoding
import PkgsourceYaml.Proof.Indexing
import PkgsourceYaml.Proof.Presentation
import PkgsourceYaml.Proof.Stream
import PkgsourceYaml.Places
import PkgsourceYaml.Proof.Places
import PkgsourceYaml.Library.Blocks
import PkgsourceYaml.Identification
import PkgsourceYaml.Proof.Content
import PkgsourceYaml.Proof.Identification
import PkgsourceYaml.Proof.Causality
import PkgsourceYaml.Proof.Surfacing
import PkgsourceYaml.Prefix
import PkgsourceYaml.Proof.Progress
import PkgsourceYaml.Proof.Prefix
import PkgsourceYaml.Session
import PkgsourceYaml.Proof.Session
import PkgsourceYaml.Proof.Conformance
import PkgsourceYaml.Library.Interpretation
import PkgsourceYaml.Plan
import PkgsourceYaml.Proof.Plan
import PkgsourceYaml.Proof.Rejection
import PkgsourceYaml.Library.Portions
import PkgsourceYaml.Texts
import PkgsourceYaml.Proof.Texts
import PkgsourceYaml.Canonical
import PkgsourceYaml.Proof.Canonical
import PkgsourceYaml.Proof.Equivalence
import PkgsourceYaml.Proof.NormalForm
import PkgsourceYaml.Proof.Location
