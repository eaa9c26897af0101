import ComputerMoney.Safety.SpendLimits
import ComputerMoney.Safety.WriteAhead
import ComputerMoney.Safety.SingleUse
import ComputerMoney.Safety.CrashRecovery
import ComputerMoney.Kernel.SilentPayment
import ComputerMoney.Safety.SilentPaymentFound
import ComputerMoney.Safety.Failover
import ComputerMoney.Safety.Blocklist
import ComputerMoney.Kernel.Serve
import ComputerMoney.Safety.ScanOnce
import ComputerMoney.Safety.Receipts
import ComputerMoney.Safety.Deposits
import ComputerMoney.Safety.TerminalStatus
import ComputerMoney.Safety.AddressIssue
import ComputerMoney.Safety.TamperEvidence
import ComputerMoney.Safety.Recoverable
import ComputerMoney.Safety.StaleWriter
import ComputerMoney.Safety.LiveSidecars
import ComputerMoney.Safety.ScanResume
import ComputerMoney.Safety.ScanCoverage
import ComputerMoney.Safety.FailedIsDead
import ComputerMoney.Safety.GivenBack
import ComputerMoney.Safety.ReconcileTwice
import ComputerMoney.Safety.SpCodes
import ComputerMoney.Safety.BuyerGuards
import ComputerMoney.Safety.PayerProtocol
import ComputerMoney.Safety.SellerScan
import ComputerMoney.Safety.SellerTerms
import ComputerMoney.Safety.McpSession
import ComputerMoney.Safety.TunnelDelivery
import ComputerMoney.Safety.BlockPages
import ComputerMoney.Kernel.CoinSelection
import ComputerMoney.Safety.AmountGate
import ComputerMoney.Safety.SpFolds
import ComputerMoney.Safety.SpFundedSend
import ComputerMoney.Safety.Collections
import ComputerMoney.Safety.ReceivePrefix
import ComputerMoney.Safety.InputOrder
import ComputerMoney.Safety.HexKeys
import ComputerMoney.Safety.ExplicitIdentity
import ComputerMoney.Safety.HeadBound
import ComputerMoney.Safety.RequestLines
import ComputerMoney.Safety.Conversation
import ComputerMoney.Safety.ServeLoop
import ComputerMoney.Safety.Dialing
import ComputerMoney.Safety.Exchange
import ComputerMoney.Safety.SetupOnce
import ComputerMoney.Safety.BuiltPayment
import ComputerMoney.Safety.BuilderGuards
import ComputerMoney.Safety.PaymentArrives
import ComputerMoney.Safety.BirthAnchor
import ComputerMoney.Safety.PaidBodies
