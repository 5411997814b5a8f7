namespace AlertLedger

/-- The exchanges, the queue and the routing keys between which messages travel. -/
structure Topology where
  storeExchange : String := "store"
  alertQueue : String := "alert_store_queue"
  alertRoutingKey : String := "alert"
  healthExchange : String := "health_check"
  heartbeatRoutingKey : String := "heartbeat.worker"
deriving DecidableEq

end AlertLedger
