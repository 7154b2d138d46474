import DogeCash.Coins.CacheRefinement
import DogeCash.Chain.MoneySupply
import DogeCash.Chain.CChain
import DogeCash.Script.SigOpBound
import DogeCash.Staking.ModifierSelection
import DogeCash.Masternode.Ranking
import DogeCash.Masternode.VoteOrder
import DogeCash.Masternode.GetBudget
import DogeCash.Masternode.PayeeVotes
import DogeCash.Masternode.MovedPayment
import DogeCash.Masternode.LockedInputs
import DogeCash.Masternode.LockSignatures
import DogeCash.Masternode.Sporks
import DogeCash.Staking.ActiveChain
import DogeCash.Validation.ReceivedBlock
import DogeCash.Validation.ScriptsInside
import DogeCash.Validation.MerkleBranch
import DogeCash.Validation.ParallelChecks
import DogeCash.Zerocoin.SpentOnce
import DogeCash.Zerocoin.MintSelectionSound
import DogeCash.Validation.VerifyDB
import DogeCash.Masternode.CheckAndRemove
import DogeCash.Network.ExtractMatches
import DogeCash.Network.MessageFraming
import DogeCash.Mining.Connectable
import DogeCash.Mining.FullTemplates
import DogeCash.Wallet.KeyPoolSize
import DogeCash.Wallet.MintableCoins
import DogeCash.Wallet.Balance
import DogeCash.Mempool.Orphans
import DogeCash.Mempool.CoinbaseSpends
import DogeCash.Network.BlocksInFlightRuns
import DogeCash.Script.SignatureHash
import DogeCash.Coins.Serialization
import DogeCash.Network.BlockDownloadPlan
import DogeCash.Network.BloomFilterRuns
import DogeCash.Zerocoin.WipeCoins
import DogeCash.Primitives.Base64
import DogeCash.Network.TimeData
import DogeCash.Network.LimitedMap
import DogeCash.Network.AddrManRestart
import DogeCash.Chain.RebuildIndex
import DogeCash.Chain.BlockProof
import DogeCash.Primitives.CompactTargets
import DogeCash.Script.ScriptNum
import DogeCash.Primitives.MoneyStrings
import DogeCash.Wallet.AddressGroupings
import DogeCash.Zerocoin.AccumulatorErasure
import DogeCash.Zerocoin.AccumulatorCheckpoints
