import EtherTrade.AccountsExactlyOnce
import EtherTrade.IdempotencyKeyIsolation
import EtherTrade.OrderIdempotencyLaws
import EtherTrade.OrderReservationLaws
import EtherTrade.OrderStatusLaws
import EtherTrade.WithdrawalRefundLaws
import EtherTrade.BookAgreementLaws
import EtherTrade.OrdersDeadlockLaws
import EtherTrade.OrdersRunAlone
import EtherTrade.PriceTimeLaws
import EtherTrade.UncrossedBookLaws
import EtherTrade.BalancesService
import EtherTrade.ExchangeRuns
import EtherTrade.FundingLaws
import EtherTrade.OrderAtomicityLaws
import EtherTrade.FirstCreditLaws
import EtherTrade.SettlementPoisonLaws
import EtherTrade.SettlementReadings
import EtherTrade.OrderEventOrderLaws
import EtherTrade.BookRehydrationLaws
import EtherTrade.OrderRetryLaws
import EtherTrade.CancelReleaseLaws
import EtherTrade.OrderBookStreamLaws
import EtherTrade.DuplicateCallLaws
import EtherTrade.ScannerCoverageLaws
import EtherTrade.DepositCoverageLaws
import EtherTrade.DepositEventLaws
import EtherTrade.WithdrawalRecoveryLaws
import EtherTrade.WithdrawalEntryLaws
import EtherTrade.WithdrawalFinalityLaws
import EtherTrade.CopyCoverageLaws
import EtherTrade.CopiedOrderLaws
import EtherTrade.CopiedSellLaws
import EtherTrade.CopiedHoldingLaws
import EtherTrade.CopyAllocationLaws
import EtherTrade.PrivateStreamLaws
import EtherTrade.TokenExchangeLaws
import EtherTrade.TokenRevocationLaws
import EtherTrade.NonceLaws
import EtherTrade.OrderMatchLaws
import EtherTrade.OrderBookDepthLaws
import EtherTrade.CopySizeLaws
import EtherTrade.WithdrawalPaymentLaws
import EtherTrade.LevelTotalLaws
import EtherTrade.OutboxRetryLaws
import EtherTrade.DepositNotificationLaws
import EtherTrade.LogPositions
import EtherTrade.EmittedOrderEvents
import EtherTrade.OrderNotifications
import EtherTrade.OrderNotificationLaws
import EtherTrade.MasterBalances
import EtherTrade.MasterBalanceSteps
import EtherTrade.MirroredSizeLaws
import EtherTrade.TokenRotationLaws
import EtherTrade.RoomIndexLaws
import EtherTrade.LockProtocolLaws
import EtherTrade.RateLimitLaws
import EtherTrade.UserIdEncoding
import EtherTrade.ErrorHopLaws
import EtherTrade.RelayBatchLaws
import EtherTrade.AmountValidationLaws
import EtherTrade.DepositVaultBacking
import EtherTrade.TradePipelineLaws
import EtherTrade.WalletStreamLaws
import EtherTrade.OrderAnswerLaws
import EtherTrade.SocketLifetimeLaws
import EtherTrade.SubscriptionLaws
