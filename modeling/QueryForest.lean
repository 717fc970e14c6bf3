import QueryForest.Main
import QueryForest.Forest.Copy
import QueryForest.Forest.Sound
import QueryForest.Proofs.Compile.Alternatives
import QueryForest.Proofs.Compile.Conservation
import QueryForest.Proofs.Compile.Copies
import QueryForest.Proofs.Compile.DefaultField
import QueryForest.Proofs.Compile.Dispatch
import QueryForest.Proofs.Compile.Implied
import QueryForest.Proofs.Compile.Ungrouped
import QueryForest.Proofs.Compile.WellFormed
import QueryForest.Proofs.Diagnostic.Filling
import QueryForest.Proofs.Document.Lossless
import QueryForest.Proofs.Document.Reloading
import QueryForest.Proofs.Document.Settling
import QueryForest.Proofs.Forest.Covering
import QueryForest.Proofs.Forest.History
import QueryForest.Proofs.Forest.Keeping
import QueryForest.Proofs.Forest.PostOrder
import QueryForest.Proofs.Forest.Rearranging
import QueryForest.Proofs.Forest.Refusing
import QueryForest.Proofs.IndexMap.Annotations
import QueryForest.Proofs.Syntax.Apart
import QueryForest.Proofs.Syntax.Confinement
import QueryForest.Proofs.Syntax.Determined
import QueryForest.Proofs.Syntax.Slots
