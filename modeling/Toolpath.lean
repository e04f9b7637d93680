import Toolpath.Main
import Toolpath.Console.MemoryDisk
import Toolpath.Proofs.LineEffect
import Toolpath.Proofs.SimulatedRun
import Toolpath.Proofs.ArcCircle
import Toolpath.Proofs.PlannedArc
import Toolpath.Proofs.EulerAngles
import Toolpath.Proofs.RotationQuaternion
import Toolpath.Proofs.FiniteRun
import Toolpath.Proofs.Doubles
import Toolpath.Proofs.NearestDouble
import Toolpath.Proofs.Rounding
import Toolpath.Proofs.Numerals
import Toolpath.Proofs.Runs
import Toolpath.Proofs.LineGrammar
import Toolpath.Proofs.CheckedPoses
import Toolpath.Proofs.LastRow
import Toolpath.Proofs.ExactPoses
import Toolpath.Proofs.ArmIndependence
import Toolpath.Proofs.LineErrors
import Toolpath.Proofs.PoseGroup
import Toolpath.Proofs.StrictReading
import Toolpath.Proofs.ShortestDecimals
import Toolpath.Proofs.WrittenLines
import Toolpath.Proofs.NearRotations
import Toolpath.Proofs.QuaternionDistance
import Toolpath.Proofs.RebuiltPoses
import Toolpath.Proofs.WordOrder
import Toolpath.Proofs.IdleWords
import Toolpath.Proofs.ArmHistory
import Toolpath.Proofs.ReachLimit
import Toolpath.Proofs.SplitLines
import Toolpath.Proofs.ProgramRuns
import Toolpath.Proofs.LetterCase
import Toolpath.Proofs.LexicalNoise
import Toolpath.Proofs.LibraryLaws
import Toolpath.Proofs.TomlNumbers
import Toolpath.Proofs.TomlDocuments
import Toolpath.Proofs.KeptFiles
import Toolpath.Proofs.SettingsText
import Toolpath.Proofs.ProgramBytes
import Toolpath.Proofs.ShellSessions
import Toolpath.Proofs.SignedRounding
import Toolpath.Proofs.DoubleArithmetic
import Toolpath.Proofs.DoubleLengths
import Toolpath.Proofs.ArcRequests
import Toolpath.Proofs.RoundingErrors
import Toolpath.Proofs.CollapsedArcs
import Toolpath.Proofs.PlainArcs
import Toolpath.Proofs.ArcSymmetries
import Toolpath.Proofs.RefusedRadii
import Toolpath.Proofs.NearInverses
import Toolpath.Proofs.RollPitchYaw
import Toolpath.Proofs.CompositionOrder
import Toolpath.Proofs.QuaternionDirections
import Toolpath.Proofs.RotationVectors
import Toolpath.Proofs.RepeatedLines
import Toolpath.Proofs.GivenMatrices
import Toolpath.Proofs.HalfTurns
