import BioFire.Separators
import BioFire.BitStrings
import BioFire.JSString
import BioFire.Rounding
import BioFire.JSValue
import BioFire.NumberString
import BioFire.TextEncoding
import BioFire.HashChain
import BioFire.ByteNumbers
import BioFire.Outcome
import BioFire.CountingLoops
import BioFire.InsertionMap
import BioFire.Runs
import BioFire.LostUpdate
import BioFire.AuditChain
import BioFire.AuditPersistence
import BioFire.AuditIndices
import BioFire.Interpolation
import BioFire.BinarySerializer
import BioFire.PackUnpack
import BioFire.PackContent
import BioFire.LicenseBlob
import BioFire.LicenseKernel
import BioFire.LicenseExpiry
import BioFire.UnpackTermination
import BioFire.UnpackErrors
import BioFire.UnpackBounds
import BioFire.UnpackProgress
import BioFire.CanonicalForm
import BioFire.FieldRoundTrip
import BioFire.Json
import BioFire.Heartbeat
import BioFire.HeartbeatIntegrity
import BioFire.LicenseShutdown
import BioFire.MerkleTree
import BioFire.MerkleRoot
import BioFire.AuditRoots
import BioFire.ModularArithmetic
import BioFire.BigIntText
import BioFire.SecureRandom
import BioFire.RejectionSampling
import BioFire.UniformDraws
import BioFire.Primality
import BioFire.Paillier
import BioFire.PaillierExpressions
import BioFire.Mta
import BioFire.IdentifiableAbort
import BioFire.RangeProof
import BioFire.Curve
import BioFire.MtaConsistency
import BioFire.LagrangeCoefficient
import BioFire.Dkg
import BioFire.KeySharing
import BioFire.Signing
import BioFire.KeyRefresh
import BioFire.PartyNames
import BioFire.SigningSession
import BioFire.SignedMessage
import BioFire.ZeroSharing
import BioFire.SubShareProof
import BioFire.RefreshRace
import BioFire.RefreshFailure
import BioFire.Vdf
import BioFire.SquareAndMultiply
import BioFire.Governance
import BioFire.Quorum
import BioFire.PolicyApprovals
import BioFire.Delegation
import BioFire.CreationIds
import BioFire.EntitledRoles
import BioFire.ApprovalCompletion
import BioFire.EmergencyFreeze
import BioFire.ApprovalLifecycle
import BioFire.FailedSubmissions
import BioFire.InputSanitization
import BioFire.Policy
import BioFire.SlidingWindow
import BioFire.Velocity
import BioFire.PolicyVerdict
import BioFire.VelocityBudget
import BioFire.EmergencyUnfreeze
import BioFire.HsmEnclave
import BioFire.ShareRecovery
import BioFire.EnclaveStatus
import BioFire.SessionGuard
import BioFire.SessionWrap
import BioFire.RequestTokens
import BioFire.CookieHeader
import BioFire.SessionCleanup
import BioFire.ChildKeys
import BioFire.Base58
import BioFire.Base58Addresses
import BioFire.Bech32
import BioFire.BitGroups
import BioFire.EvmAddress
import BioFire.SecureBuffer
import BioFire.ScalarExport
import BioFire.BlsEngine
import BioFire.PreComputation
import BioFire.TupleQueue
import BioFire.PartialSignature
import BioFire.FastPath
import BioFire.Transport
import BioFire.Disconnection
import BioFire.ConnectionLimit
import BioFire.Backoff
import BioFire.FrameSize
import BioFire.PercentEncoding
import BioFire.PeerIdentity
import BioFire.Server
import BioFire.Machines
import BioFire.ConstantTime
import BioFire.BufferMemory
import BioFire.Zeroization
import BioFire.MessageNetwork
import BioFire.SearchLoops
import BioFire.PrimeSearch
import BioFire.Grouping
import BioFire.HardwareFingerprint
import BioFire.CloneDetection
import BioFire.GovernanceAudit
import BioFire.WorkerThreads
import BioFire.WorkerShutdown
import BioFire.RefreshHistory
import BioFire.ApiServer
import BioFire.KmsDriver
import BioFire.BitcoinAddress
import BioFire.SerializerFuzzer
import BioFire.StateMachineFuzzer
