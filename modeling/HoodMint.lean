import HoodMint.Lib.Transition
import HoodMint.Lib.Rollback
import HoodMint.MintExecutorCustody
import HoodMint.MintExecutorRollingCap
import HoodMint.NonceDistinct
import HoodMint.NonceGap
import HoodMint.Lib.Effect
import HoodMint.IdempotencyGate
import HoodMint.WriteAhead
import HoodMint.SignerFrame
import HoodMint.NoRearm
import HoodMint.StalePresign
import HoodMint.NonceReturn
import HoodMint.PresignStranded
import HoodMint.PlanLifecycle
import HoodMint.PresignHygiene
import HoodMint.BrowserPrompt
import HoodMint.SpendPolicy
import HoodMint.SpendCeiling
import HoodMint.HotLoopClaims
import HoodMint.ProviderWords
import HoodMint.OpenSeaKeys
import HoodMint.OutboxLifecycle
import HoodMint.AlertChannels
import HoodMint.DropIngest
import HoodMint.ProjectMerge
import HoodMint.ChainFinality
import HoodMint.EventAttribution
import HoodMint.RateLimiter
import HoodMint.NvtAlerts
import HoodMint.FeedStages
import HoodMint.FeedPages
import HoodMint.MintAllowance
import HoodMint.ArmWindows
import HoodMint.OnePlan
import HoodMint.DailyCap
import HoodMint.WhitelistHits
import HoodMint.Attribution
import HoodMint.WalletKeys
import HoodMint.WalletReseal
import HoodMint.FirstUser
import HoodMint.Lockout
import HoodMint.LockoutRuns
import HoodMint.EarlyRevert
import HoodMint.SignerActions
import HoodMint.SignerPass
import HoodMint.SignerLifecycle
import HoodMint.Lib.Significant
import HoodMint.MintPrecheck
import HoodMint.StageOrder
import HoodMint.CheckRuns
import HoodMint.PausedSchedule
import HoodMint.LogPager
import HoodMint.AggregateRuns
import HoodMint.BroadcastOrder
import HoodMint.OwnCap
import HoodMint.CastOverflow
import HoodMint.ReorgReplay
import HoodMint.MintDecoding
import HoodMint.EligibilityDue
import HoodMint.EligibilityDelays
import HoodMint.WriteQuota
import HoodMint.OpenSeaQuota
import HoodMint.RateLimiterPenalty
import HoodMint.SignatureBurst
import HoodMint.WalletActions
import HoodMint.Lib.IpAddress
import HoodMint.WebhookGuard
import HoodMint.RpcGuard
import HoodMint.FireWindows
import HoodMint.DedupeKeys
import HoodMint.DiscordEmbeds
import HoodMint.DiscordChunks
import HoodMint.Lib.Redact
import HoodMint.SecretRedaction
import HoodMint.ProviderFetch
import HoodMint.ProviderAttempts
import HoodMint.LocalTime
import HoodMint.RpcDerive
import HoodMint.Scheduler
import HoodMint.SupplySweep
import HoodMint.XaiOAuth
import HoodMint.XaiRuns
import HoodMint.XaiRotation
import HoodMint.Lib.Custody
import HoodMint.XaiReplay
import HoodMint.Lib.Abi
import HoodMint.Lib.Hex
import HoodMint.ExecutorCalldata
import HoodMint.ExecutorMint
import HoodMint.StageAlerts
import HoodMint.Lib.Csv
import HoodMint.FeedExports
import HoodMint.Erc20Approval
import HoodMint.Erc20ApprovalRuns
