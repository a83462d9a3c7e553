import PME.Abstraction
import PME.Aiger
import PME.AssumptionCubes
import PME.BMCCorrectionSetFinder
import PME.BMCDebugger
import PME.BMCSolver
import PME.BMCTrace
import PME.BasicMCSFinder
import PME.BatchPlan
import PME.BruteForce
import PME.Build
import PME.CAIVC
import PME.CAIVCCandidates
import PME.CAIVCCollection
import PME.CAIVCEnumeration
import PME.CAIVCInvariant
import PME.CAIVCRefinement
import PME.CAIVCRun
import PME.CandidateSolver
import PME.CardinalityConstraint
import PME.CardinalityNetwork
import PME.Circuit
import PME.ClauseDatabase
import PME.Cnf
import PME.CollapseSetFinder
import PME.CollapseSets
import PME.ConsecutionChecker
import PME.CoreQuery
import PME.DebugExecution
import PME.DebugMeaning
import PME.DebugRelation
import PME.Debugger
import PME.Execution
import PME.ExploreHints
import PME.FindBatch
import PME.FindMinimalSupport
import PME.FindSafeMIS
import PME.HittingSetFinder
import PME.HybridDebugger
import PME.HybridSafetyChecker
import PME.IC3.ActivatedLemmas
import PME.IC3.Blocking
import PME.IC3.Certificate
import PME.IC3.Climbing
import PME.IC3.Decision
import PME.IC3.FrameAnswers
import PME.IC3.FrameContract
import PME.IC3.FrameMeaning
import PME.IC3.FrameQueries
import PME.IC3.FrameRefinement
import PME.IC3.FrameSolver
import PME.IC3.FreshVariables
import PME.IC3.Generalization
import PME.IC3.Guarantees
import PME.IC3.IC3Solver
import PME.IC3.InductiveTrace
import PME.IC3.InitialStates
import PME.IC3.Initialization
import PME.IC3.LemmaMoves
import PME.IC3.LiftedSteps
import PME.IC3.Lifting
import PME.IC3.Proving
import PME.IC3.Pushing
import PME.IC3.RecursiveBlock
import PME.IC3.Reinitiation
import PME.IC3.Restrictions
import PME.IC3.SearchBudget
import PME.IC3.Session
import PME.IC3.SolverInvariant
import PME.IC3.TraceCalls
import PME.IC3.UNSATCoreLifter
import PME.IC3Debugger
import PME.ID
import PME.IVC
import PME.IVCChecker
import PME.IVCUCBF
import PME.Lib.Ascent
import PME.Lib.Comparator
import PME.Lib.CoreGuided
import PME.Lib.Duality
import PME.Lib.Exploration
import PME.Lib.FirstFound
import PME.Lib.FrameSequence
import PME.Lib.Greedy
import PME.Lib.HittingSets
import PME.Lib.Journal
import PME.Lib.Outcome
import PME.Lib.Safety
import PME.Lib.SmallestFirst
import PME.Lib.Support
import PME.Lib.Unary
import PME.MARCOIVC
import PME.MCSEnumeration
import PME.MCSFinder
import PME.MUSFinder
import PME.MapContract
import PME.MapSession
import PME.MapSolver
import PME.MaxSATInvariant
import PME.MaxSATOptimal
import PME.MaxSATSession
import PME.MaxSATSolve
import PME.MaxSATSolver
import PME.MergeNetwork
import PME.NegatedProof
import PME.Network
import PME.PBOMaxSATSolver
import PME.PBOSession
import PME.ParseProof
import PME.PartialCircuit
import PME.PartialRelation
import PME.ProofChecker
import PME.ProofClauses
import PME.ProofFile
import PME.ProofMinimizer
import PME.SATAdaptor
import PME.SATTranslation
import PME.SISI
import PME.SafetyProof
import PME.SafetyResult
import PME.SeedSearch
import PME.Selection
import PME.SharedDebugger
import PME.SignalRoles
import PME.SimpleMinimizer
import PME.SimplifyTR
import PME.SortingNetwork
import PME.Totalizer
import PME.TotalizerClauses
import PME.TotalizerEmission
import PME.TotalizerRun
import PME.TransitionRelation
import PME.UnifiedIVC
import PME.UnifiedIVCMaps
import PME.UnifiedIVCPass
import PME.UnifiedIVCRun
import PME.Unroll
import PME.UnsafetyCache
import PME.UnsatCores
import PME.VariableManager
