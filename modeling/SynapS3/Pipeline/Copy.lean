/-!
# `Pipeline.Copy` — the columns of a storage copy that several components read
-/

namespace SynapS3.Pipeline

inductive CopyStatus where
  | pending
  | pieceReady
  | committing
  | committed
  | failed
  deriving DecidableEq

def CopyStatus.live : CopyStatus → Bool
  | .pending | .pieceReady | .committing => true
  | .committed | .failed => false

inductive TransferMethod where
  | ingress
  | peerPull
  | cacheRestore
  deriving DecidableEq

def TransferMethod.fromCache : TransferMethod → Bool
  | .ingress | .cacheRestore => true
  | .peerPull => false

end SynapS3.Pipeline
