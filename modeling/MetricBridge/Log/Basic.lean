import MetricBridge.Text.Basic

namespace MetricBridge

inductive Severity where
  | debug
  | info
  | warning
  | error
  | critical
deriving DecidableEq, Repr

namespace Severity

def rank : Severity → Nat
  | debug => 10
  | info => 20
  | warning => 30
  | error => 40
  | critical => 50

def name : Severity → String
  | debug => "DEBUG"
  | info => "INFO"
  | warning => "WARNING"
  | error => "ERROR"
  | critical => "CRITICAL"

def all : List Severity := [debug, info, warning, error, critical]

def ofName? (t : Text) : Option Severity := all.find? fun s => lit s.name == t

end Severity

inductive Origin where
  | application
  | dispatch
  | reporting
  | cache
  | credentials
  | settings
  | dotenv
deriving DecidableEq, Repr

def Origin.name : Origin → Text
  | application => "matomo_connector"
  | dispatch => "matomo_connector.api.dispatcher"
  | reporting => "matomo_connector.api.reporting"
  | cache => "matomo_connector.api.cache"
  | credentials => "matomo_connector.core.credentials"
  | settings => "matomo_connector.core.config"
  | dotenv => "dotenv.main"

structure LogEntry where
  severity : Severity
  origin : Origin
  message : Text
deriving DecidableEq, Repr

end MetricBridge
