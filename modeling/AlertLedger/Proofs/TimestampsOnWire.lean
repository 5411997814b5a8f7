import AlertLedger.Liveness
import AlertLedger.Proofs.DecimalReading
import AlertLedger.Proofs.HistoryBlocks
import AlertLedger.Proofs.RecordRoundTrip

namespace AlertLedger

namespace Json

variable {x y : Magnitude}

end Json

variable {s : Bool} {x y : Magnitude}

end AlertLedger
